import TradingEngine.Http.ResponseStream
import TradingEngine.Http.ServerResponse

/-!
# Http/ResponseRoundTrip — the client's parser reads what the server writes

The server's header lines are pairs of a name and a value; the parser stores the trimmed value under
the trimmed name, up to the first colon, and later lines overwrite earlier ones.  So a custom header
comes back if its name has no colon and no blanks around it, and is none of the names the server
adds; and a content comes back if an `int` counts it.
-/

namespace TradingEngine

open Ascii Incremental HttpsClientResponse

namespace HttpResponse

/-! ## Header lines -/

/-- A name that the parser reads back: no colon, and no blank at its ends. -/
structure Name (name : List UInt8) : Prop where
  no_colon : colon ∉ name
  head : ∀ c ∈ name.head?, isBlank c = false
  last : ∀ c ∈ name.getLast?, isBlank c = false

/-- A text without line ends. -/
def InLine (s : List UInt8) : Prop := ∀ c ∈ s, c ≠ cr ∧ c ≠ lf

/-- The headers with a field's value under its name. -/
def store (headers : List UInt8 → Option (List UInt8)) (field : List UInt8 × List UInt8) :
    List UInt8 → Option (List UInt8) :=
  Function.update headers field.1 (some (trim field.2))

variable {field : List UInt8 × List UInt8} {fields : List (List UInt8 × List UInt8)} {parsed : Head}

theorem trim_name {name : List UInt8} (h : Name name) : trim name = name := by
  have hnone : ∀ c ∈ ([] : List UInt8), isBlank c = true := fun c hc => absurd hc List.not_mem_nil
  have htrim := trim_blanks hnone h.head h.last hnone
  rwa [List.nil_append, List.append_nil] at htrim

theorem trim_space (s : List UInt8) : trim (space :: s) = trim s := by
  rw [trim, List.dropWhile_cons_of_pos (by decide), trim]

/-- **A header line is read**: its value is stored under its name, and may be the length. -/
theorem parseField_headerLine (h : Name field.1)
    (hchunked : sameName field.1 (text "Transfer-Encoding") = false) :
    parseField parsed (headerLine field) =
      if sameName field.1 (text "Content-Length") then
        (stoi (trim field.2)).map fun n =>
          { response := { parsed.response with headers := store parsed.response.headers field }
            contentLength := n
            isChunked := parsed.isChunked }
      else
        some
          { parsed with
            response :=
              { parsed.response with headers := store parsed.response.headers field } } := by
  have hname : ∀ c ∈ field.1, decide (c ≠ colon) = true := fun c hc =>
    decide_eq_true fun heq => h.no_colon (heq ▸ hc)
  obtain ⟨htake, hdrop⟩ := span_append (t := colon :: space :: field.2) hname
    fun c hc => by cases hc; rfl
  have hcolon : colon ∈ headerLine field := List.mem_append_right _ List.mem_cons_self
  rw [parseField, if_pos hcolon, headerLine, htake, hdrop, List.tail_cons, trim_name h, trim_space]
  dsimp only
  by_cases hlength : sameName field.1 (text "Content-Length") = true
  · rw [if_pos hlength, if_pos hlength, Option.map_map]
    simp only [hchunked, Bool.false_eq_true, false_and, if_false]
    rfl
  · rw [if_neg hlength, if_neg hlength, Option.map_some]
    simp only [hchunked, Bool.false_eq_true, false_and, if_false]
    rfl

/-- A name that says nothing about the body. -/
structure Plain (name : List UInt8) : Prop where
  isName : Name name
  notLength : sameName name (text "Content-Length") = false
  notChunked : sameName name (text "Transfer-Encoding") = false

/-- Such fields are read one after the other. -/
theorem foldlM_headerLine (h : ∀ field ∈ fields, Plain field.1) (parsed : Head) :
    (fields.map headerLine).foldlM parseField parsed = some
      { parsed with
        response :=
          { parsed.response with headers := fields.foldl store parsed.response.headers } } := by
  induction fields generalizing parsed with
  | nil => rfl
  | cons field fields ih =>
    have hfield := h field List.mem_cons_self
    rw [List.map_cons, List.foldlM_cons, parseField_headerLine hfield.isName hfield.notChunked,
      if_neg (by simp [hfield.notLength])]
    exact ih (fun f hf => h f (List.mem_cons_of_mem field hf)) _

/-- What is not named is not changed. -/
theorem foldl_store_of_notMem {name : List UInt8} (h : name ∉ fields.map (·.1))
    (headers : List UInt8 → Option (List UInt8)) :
    fields.foldl store headers name = headers name := by
  induction fields generalizing headers with
  | nil => rfl
  | cons field fields ih =>
    obtain ⟨hne, hmem⟩ := List.ne_and_not_mem_of_not_mem_cons h
    rw [List.foldl_cons, ih hmem, store, Function.update_of_ne hne]

/-- **A field of a name that is given once comes back.** -/
theorem foldl_store_of_mem {name value : List UInt8} (hnodup : (fields.map (·.1)).Nodup)
    (h : (name, value) ∈ fields) (headers : List UInt8 → Option (List UInt8)) :
    fields.foldl store headers name = some (trim value) := by
  induction fields generalizing headers with
  | nil => exact absurd h List.not_mem_nil
  | cons field fields ih =>
    obtain ⟨hnot, hrest⟩ := List.nodup_cons.mp hnodup
    rw [List.foldl_cons]
    rcases List.mem_cons.mp h with rfl | hmem
    · rw [foldl_store_of_notMem hnot, store, Function.update_self]
    · exact ih hrest hmem _

/-! ## The bytes of a response -/

theorem flatMap_lines (first : List UInt8) (lines : List (List UInt8)) :
    first ++ crlf ++ lines.flatMap (· ++ crlf) = joinLines first lines ++ crlf := by
  induction lines generalizing first with
  | nil => simp [joinLines]
  | cons line lines ih =>
    have hrest := ih line
    rw [joinLines_cons, List.flatMap_cons]
    simp only [List.append_assoc] at hrest ⊢
    rw [hrest]

theorem lineText_headerLine (hname : InLine field.1) (hvalue : InLine field.2) :
    LineText (headerLine field) := by
  refine .of_forall (List.append_ne_nil_of_right_ne_nil _ (List.cons_ne_nil _ _)) fun c hc => ?_
  rw [headerLine, List.mem_append, List.mem_cons, List.mem_cons] at hc
  rcases hc with hmem | rfl | rfl | hmem
  · exact hname c hmem
  · decide
  · decide
  · exact hvalue c hmem

end HttpResponse

/-! ## The status line -/

namespace ResponseStatusCode

theorem decimal_code (code : ResponseStatusCode) :
    (decimal code.code).length = 3 ∧ ∀ c ∈ decimal code.code, isDigit c = true :=
  ⟨by cases code <;> decide, fun _ => isDigit_of_mem_decimal⟩

theorem inLine_statusText {code : ResponseStatusCode} {status : List UInt8}
    (h : code.statusText = some status) : HttpResponse.InLine status := by
  cases code <;> cases h <;> exact forall_of_all (by decide)

end ResponseStatusCode

namespace HttpResponse

variable (doubles : DoubleText) (response : HttpResponse)

/-- What the response must be: its code has a text, the file name and the custom headers are free of
line ends, and no custom header says how long the body is.  The keys of the header map are
distinct. -/
structure WellFormed : Prop where
  code : response.responseCode.statusText.isSome = true
  fileName : InLine response.fileInfo.fileName
  keys : (response.customHeader.forEachWithKey.map (·.1)).Nodup
  custom : ∀ field ∈ response.customHeader.forEachWithKey,
    InLine field.1 ∧ InLine (field.2.write doubles) ∧
      sameName field.1 (text "Content-Length") = false ∧
      sameName field.1 (text "Transfer-Encoding") = false

/-- What the two sides can pass on: an `int` counts the content; a custom header fits the buffer of
`get_string_value`, its name can be read back and is none of those the server adds. -/
structure Readable : Prop where
  length : response.content.length < 2 ^ 31
  custom : ∀ field ∈ response.customHeader.forEachWithKey,
    (field.2.write doubles).length ≤ HeaderData.stringBufferSize ∧ Name field.1 ∧
      field.1 ∉ response.addedFields.map (·.1) ∧ field.1 ≠ text "Content-Length"

/-- The custom headers, with the texts of their data. -/
def customTexts : List (List UInt8 × List UInt8) :=
  response.customHeader.forEachWithKey.map fun field => (field.1, field.2.write doubles)

/-- A response that was received is the one that was sent: code, body and custom headers. -/
structure ReceivedAs (received : HttpsClientResponse) : Prop where
  statusCode : received.statusCode = response.responseCode.code
  body : received.body = response.content
  complete : received.isComplete = true
  headers : ∀ field ∈ response.customTexts doubles,
    received.headers field.1 = some (trim field.2)

variable {doubles response}

theorem mapM_some_of_forall {α β : Type} {f : α → Option β} {g : α → β} {l : List α}
    (h : ∀ a ∈ l, f a = some (g a)) : l.mapM f = some (l.map g) := by
  induction l with
  | nil => rfl
  | cons a l ih =>
    rw [List.mapM_cons, h a List.mem_cons_self,
      ih fun b hb => h b (List.mem_cons_of_mem a hb)]
    rfl

theorem customFields_eq (h : Readable doubles response) :
    response.customFields doubles = some (response.customTexts doubles) := by
  refine mapM_some_of_forall fun field hfield => ?_
  rw [HeaderData.getStringValue, if_pos (h.custom field hfield).1]
  rfl

/-- A field whose name says nothing about the body, and whose line has no line ends. -/
def PlainLine (field : List UInt8 × List UInt8) : Prop :=
  Plain field.1 ∧ InLine field.1 ∧ InLine field.2

theorem plain_contentType : Plain (text "Content-Type") ∧ InLine (text "Content-Type") :=
  ⟨⟨⟨by decide, by rintro _ ⟨⟩; rfl, by rintro _ ⟨⟩; rfl⟩, rfl, rfl⟩, forall_of_all (by decide)⟩

theorem plain_contentDisposition :
    Plain (text "Content-Disposition") ∧ InLine (text "Content-Disposition") :=
  ⟨⟨⟨by decide, by rintro _ ⟨⟩; rfl, by rintro _ ⟨⟩; rfl⟩, rfl, rfl⟩, forall_of_all (by decide)⟩

theorem plainLine_contentType {value : List UInt8} (h : InLine value) :
    PlainLine (text "Content-Type", value) :=
  ⟨plain_contentType.1, plain_contentType.2, h⟩

theorem plainLine_corsFields : ∀ field ∈ corsFields, PlainLine field := by
  intro field hfield
  simp only [corsFields, List.mem_cons, List.not_mem_nil, or_false] at hfield
  repeat rw [text_ofList] at hfield
  rcases hfield with rfl | rfl | rfl | rfl <;>
    exact ⟨⟨⟨by decide, by rintro _ ⟨⟩; rfl, by rintro _ ⟨⟩; rfl⟩, rfl, rfl⟩,
      forall_of_all (by decide), forall_of_all (by decide)⟩

/-- **The headers the server adds** are lines, and do not say how long the body is. -/
theorem plainLine_addedFields (hfile : InLine response.fileInfo.fileName) :
    ∀ field ∈ response.addedFields, PlainLine field := by
  intro field hfield
  rw [addedFields, List.mem_append, List.mem_append] at hfield
  rcases hfield with (hfield | hfield) | hfield
  · exact plainLine_corsFields field hfield
  · rw [contentType] at hfield
    split at hfield
    · rw [List.mem_singleton.mp hfield]
      exact plainLine_contentType (forall_of_all (by decide))
    · split at hfield
      · rw [List.mem_singleton.mp hfield]
        exact plainLine_contentType (forall_of_all (by decide))
      · rw [List.mem_singleton.mp hfield]
        exact plainLine_contentType (forall_of_all (by decide))
      · rw [List.mem_singleton.mp hfield]
        exact plainLine_contentType (forall_of_all (by decide))
      · exact absurd hfield List.not_mem_nil
  · rw [contentDisposition] at hfield
    split at hfield
    · rw [List.mem_singleton.mp hfield]
      refine ⟨plain_contentDisposition.1, plain_contentDisposition.2, fun c hc => ?_⟩
      have hattachment : InLine (text "attachment; filename=") := forall_of_all (by decide)
      simp only [List.mem_append, List.mem_cons, List.not_mem_nil, or_false] at hc
      rcases hc with hc | rfl | hc | rfl
      · exact hattachment c hc
      · decide
      · exact hfile c hc
      · decide
    · exact absurd hfield List.not_mem_nil

theorem plainLine_customTexts (hwf : WellFormed doubles response)
    (hread : Readable doubles response) :
    ∀ field ∈ response.customTexts doubles, PlainLine field := by
  intro field hfield
  obtain ⟨source, hsource, rfl⟩ := List.mem_map.mp hfield
  obtain ⟨hname, hvalue, hlength, hchunked⟩ := hwf.custom source hsource
  exact ⟨⟨(hread.custom source hsource).2.1, hlength, hchunked⟩, hname, hvalue⟩

/-! ## The response is read back -/

variable (doubles response) in
/-- The header lines, in order. -/
def fields : List (List UInt8 × List UInt8) :=
  response.customTexts doubles ++ response.addedFields

variable (doubles response) in
/-- What the client gets. -/
def received (status : List UInt8) : HttpsClientResponse where
  statusCode := response.responseCode.code
  statusMessage := status
  headers := (response.fields doubles ++ [response.contentLength]).foldl store fun _ => none
  body := response.content
  isComplete := true

theorem receivedAs_received (hwf : WellFormed doubles response) (hread : Readable doubles response)
    (status : List UInt8) : ReceivedAs doubles response (response.received doubles status) where
  statusCode := rfl
  body := rfl
  complete := rfl
  headers field hfield := by
    have hkeys : ((response.customTexts doubles).map (·.1)).Nodup := by
      rw [customTexts, List.map_map]
      exact hwf.keys
    obtain ⟨source, hsource, rfl⟩ := List.mem_map.mp hfield
    obtain ⟨-, -, hadded, hlength⟩ := hread.custom source hsource
    -- the lines behind the custom headers have other names
    have hbehind : source.1 ∉ (response.addedFields ++ [response.contentLength]).map (·.1) := by
      rw [List.map_append, List.mem_append, not_or]
      exact ⟨hadded, fun hmem => hlength (List.mem_singleton.mp hmem)⟩
    refine Eq.trans (congrFun (congrArg (List.foldl store _) (List.append_assoc _ _ _)) _) ?_
    rw [List.foldl_append]
    exact (foldl_store_of_notMem hbehind _).trans (foldl_store_of_mem hkeys hfield _)

theorem isBlank_of_isDigit {c : UInt8} (h : isDigit c = true) : isBlank c = false := by
  rw [isBlank, decide_eq_false_iff_not]
  rintro (rfl | rfl) <;> exact Bool.false_ne_true h

/-- The length is read back. -/
theorem stoi_decimal {n : ℕ} (h : n < 2 ^ 31) : stoi (trim (decimal n)) = some (n : ℤ) := by
  have hdigits : ∀ c ∈ decimal n, isDigit c = true := fun _ => isDigit_of_mem_decimal
  have hname : Name (decimal n) := by
    refine ⟨fun hmem => absurd (hdigits colon hmem) (by decide), fun c hc => ?_, fun c hc => ?_⟩
    · exact isBlank_of_isDigit (hdigits c (List.mem_of_mem_head? hc))
    · exact isBlank_of_isDigit (hdigits c (List.mem_of_mem_getLast? hc))
  rw [trim_name hname, stoi_digits (decimal_ne_nil n) hdigits (by rwa [ofDecimal_decimal]),
    ofDecimal_decimal]

theorem name_contentLength : Name (text "Content-Length") ∧ InLine (text "Content-Length") :=
  ⟨⟨by decide, by rintro _ ⟨⟩; rfl, by rintro _ ⟨⟩; rfl⟩, forall_of_all (by decide)⟩

/-- **The last line says how long the body is.** -/
theorem parseField_contentLength (h : response.content.length < 2 ^ 31) (parsed : Head) :
    parseField parsed (headerLine response.contentLength) = some
      { response := { parsed.response with
          headers := store parsed.response.headers response.contentLength }
        contentLength := response.content.length
        isChunked := parsed.isChunked } := by
  have hlength : sameName response.contentLength.1 (text "Content-Length") = true := by
    change sameName (text "Content-Length") (text "Content-Length") = true
    decide
  have hchunked : sameName response.contentLength.1 (text "Transfer-Encoding") = false := by
    change sameName (text "Content-Length") (text "Transfer-Encoding") = false
    decide
  have hcount : stoi (trim response.contentLength.2) = some (response.content.length : ℤ) :=
    stoi_decimal h
  rw [parseField_headerLine name_contentLength.1 hchunked, if_pos hlength, hcount]
  rfl

variable (doubles) in
/-- **The head is read.** -/
theorem readsHead (hwf : WellFormed doubles response) (hread : Readable doubles response)
    {status : List UInt8} (hstatus : response.responseCode.statusText = some status) :
    ReadsHead
      (joinLines
        (text "HTTP/1.1" ++ space :: (decimal response.responseCode.code ++ space :: status))
        ((response.fields doubles ++ [response.contentLength]).map headerLine))
      ⟨{ response.received doubles status with body := [], isComplete := false },
        response.content.length, false⟩ := by
  have hplain : ∀ field ∈ response.fields doubles, PlainLine field := fun field hfield =>
    (List.mem_append.mp hfield).elim (plainLine_customTexts hwf hread field)
      (plainLine_addedFields hwf.fileName field)
  have hlength : InLine response.contentLength.1 ∧ InLine response.contentLength.2 :=
    ⟨name_contentLength.2, fun c hc => ne_of_isDigit (isDigit_of_mem_decimal hc)⟩
  have hlines : ∀ line ∈ (response.fields doubles ++ [response.contentLength]).map headerLine,
      LineText line := by
    intro line hline
    obtain ⟨field, hfield, rfl⟩ := List.mem_map.mp hline
    rcases List.mem_append.mp hfield with hfield | hfield
    · exact lineText_headerLine (hplain field hfield).2.1 (hplain field hfield).2.2
    · rw [List.mem_singleton.mp hfield]
      exact lineText_headerLine hlength.1 hlength.2
  -- the status line is the one of a head without fields
  let head : WireHead :=
    { code := decimal response.responseCode.code
      reason := status
      fields := []
      code_digits := response.responseCode.decimal_code
      reason_char := ResponseStatusCode.inLine_statusText hstatus
      numeric := fun field hfield => absurd hfield List.not_mem_nil }
  have hfirst : LineText head.statusLine := lineText_statusLine
  refine ⟨cut_headEnd hfirst.2.1 fun line hline =>
    ⟨(hlines line hline).1, (hlines line hline).2.1⟩, ?_⟩
  change parseHeader (joinLines head.statusLine _) _ = _
  rw [parseHeader, getLines_joinLines hfirst hlines]
  dsimp only
  rw [parseStatusLine_statusLine, List.map_append, List.foldlM_append,
    foldlM_headerLine fun field hfield => (hplain field hfield).1]
  simp only [List.map_cons, List.map_nil, Option.bind_eq_bind, Option.bind_some, List.foldlM_cons,
    parseField_contentLength hread.length, List.foldlM_nil, Option.pure_def]
  rw [received, List.foldl_append, ofDecimal_decimal]
  rfl

/-- **One response is a path of tokens** that gives it out. -/
theorem exists_path (hwf : WellFormed doubles response) (hread : Readable doubles response) :
    ∃ ts received, response.getResponseInString doubles = some (Reader.bytes ts) ∧
      responseReader.Path (some .reset) ts (some .reset) ∧ Reader.outs ts = [received] ∧
        ReceivedAs doubles response received := by
  obtain ⟨status, hstatus⟩ := Option.isSome_iff_exists.mp hwf.code
  have hlength : ((response.content.length : ℕ) : ℤ) = response.content.length := rfl
  obtain ⟨ts, tok, hpath, houts, hout, hbytes⟩ :=
    (readsHead doubles hwf hread hstatus).exists_path rfl rfl hlength hread.length
  have hjoin := flatMap_lines
    (text "HTTP/1.1" ++ space :: (decimal response.responseCode.code ++ space :: status))
    ((response.fields doubles ++ [response.contentLength]).map headerLine)
  refine ⟨ts ++ [tok], response.received doubles status, ?_, hpath, ?_,
    receivedAs_received hwf hread status⟩
  · rw [Reader.bytes_append, Reader.bytes_cons, Reader.bytes_nil, List.append_nil, hbytes, headEnd,
      ← List.append_assoc, ← hjoin, List.flatMap_map, getResponseInString, hstatus,
      customFields_eq hread]
    rfl
  · rw [Reader.outs_append, houts, Reader.outs_cons, hout]
    rfl

variable (doubles) in
/-- **Responses are read back**: the server writes them, and a client that is fed what it wrote, in
whatever pieces, gets each of them once and in order, and is left as it was. -/
def ReadBack (responses : List HttpResponse) : Prop :=
  ∃ texts, responses.mapM (getResponseInString doubles) = some texts ∧
    ∀ pieces : List (List UInt8), pieces.flatten = texts.flatten →
      ∃ received, HttpsClientResponseParser.fresh.feedPieces pieces = (some received, .fresh) ∧
        List.Forall₂ (ReceivedAs doubles) responses received

/-- Some responses are a path of tokens. -/
theorem exists_path_responses {responses : List HttpResponse}
    (hwf : ∀ response ∈ responses, WellFormed doubles response)
    (hread : ∀ response ∈ responses, Readable doubles response) :
    ∃ texts ts, responses.mapM (getResponseInString doubles) = some texts ∧
      responseReader.Path (some .reset) ts (some .reset) ∧ Reader.bytes ts = texts.flatten ∧
        List.Forall₂ (ReceivedAs doubles) responses (Reader.outs ts) := by
  induction responses with
  | nil => exact ⟨[], [], rfl, .nil _, rfl, .nil⟩
  | cons response responses ih =>
    obtain ⟨ts, received, hbytes, hpath, houts, hreceived⟩ :=
      exists_path (hwf response List.mem_cons_self) (hread response List.mem_cons_self)
    obtain ⟨texts, ts', htexts, hpath', hts', hrest⟩ :=
      ih (fun r hr => hwf r (List.mem_cons_of_mem response hr))
        fun r hr => hread r (List.mem_cons_of_mem response hr)
    refine ⟨Reader.bytes ts :: texts, ts ++ ts', ?_, hpath.append hpath', ?_, ?_⟩
    · rw [List.mapM_cons, hbytes, htexts]
      rfl
    · rw [Reader.bytes_append, hts', List.flatten_cons]
    · rw [Reader.outs_append, houts, List.singleton_append]
      exact .cons hreceived hrest

/-- **The server's responses are read back by the client's parser.** -/
theorem readBack_of_readable {responses : List HttpResponse}
    (hwf : ∀ response ∈ responses, WellFormed doubles response)
    (hread : ∀ response ∈ responses, Readable doubles response) : ReadBack doubles responses := by
  obtain ⟨texts, ts, htexts, hpath, hbytes, hreceived⟩ := exists_path_responses hwf hread
  refine ⟨texts, htexts, fun pieces hpieces => ⟨Reader.outs ts, ?_, hreceived⟩⟩
  exact HttpsClientResponseParser.feedPieces_of_path hpath (hpieces.trans hbytes.symm)

/-- Doubles are not written here. -/
def noDoubles : DoubleText := ⟨fun _ => [], fun _ => none⟩

/-- A login: a JSON content and a cookie that is no JSON string. -/
def loginResponse : HttpResponse where
  responseCode := .ok200
  customHeader := .object [(text "Set-Cookie", .plain (text "accessToken=abc; Path=/"))]
  content := openBrace :: cr :: lf :: cr :: lf :: [closeBrace]
  isJsonFormat := true
  fileInfo := ⟨.noneType, []⟩

/-- The login and a file, one behind the other. -/
theorem readBack_login :
    ReadBack noDoubles
      [loginResponse, ⟨.created201, .tree .null, [0, 255], false, ⟨.js, text "a.js"⟩⟩] := by
  refine readBack_of_readable ?_ ?_
  · intro response hresponse
    simp only [List.mem_cons, List.not_mem_nil, or_false] at hresponse
    rcases hresponse with rfl | rfl
    · refine ⟨rfl, forall_of_all (by decide), by decide, fun field hfield => ?_⟩
      rw [List.mem_singleton.mp hfield]
      exact ⟨forall_of_all (by decide), forall_of_all (by decide), by decide, by decide⟩
    · exact ⟨rfl, forall_of_all (by decide), by decide, fun field hfield =>
        absurd hfield List.not_mem_nil⟩
  · intro response hresponse
    simp only [List.mem_cons, List.not_mem_nil, or_false] at hresponse
    rcases hresponse with rfl | rfl
    · refine ⟨by decide, fun field hfield => ?_⟩
      rw [List.mem_singleton.mp hfield]
      exact ⟨by decide, ⟨by decide, by rintro _ ⟨⟩; rfl, by rintro _ ⟨⟩; rfl⟩, by decide, by decide⟩
    · exact ⟨by decide, fun field hfield => absurd hfield List.not_mem_nil⟩

/-- A custom header whose name has a colon. -/
def colonResponse : HttpResponse where
  responseCode := .ok200
  customHeader := .object [(text "a:b", .plain (text "c"))]
  content := []
  isJsonFormat := false
  fileInfo := ⟨.noneType, []⟩

/-- Its header is stored under the part of its name in front of the colon. -/
theorem colon_not_readBack :
    ¬ ∀ responses : List HttpResponse,
      (∀ response ∈ responses, WellFormed noDoubles response) → ReadBack noDoubles responses := by
  intro h
  have hwf : ∀ response ∈ [colonResponse], WellFormed noDoubles response := by
    intro response hresponse
    rw [List.mem_singleton.mp hresponse]
    refine ⟨rfl, forall_of_all (by decide), by decide, fun field hfield => ?_⟩
    rw [List.mem_singleton.mp hfield]
    exact ⟨forall_of_all (by decide), forall_of_all (by decide), by decide, by decide⟩
  obtain ⟨texts, htexts, hread⟩ := h [colonResponse] hwf
  obtain ⟨received, hfeed, hmatch⟩ := hread [texts.flatten] (List.append_nil _)
  have hnone : (HttpsClientResponseParser.fresh.feedPieces
      [(([colonResponse].mapM (getResponseInString noDoubles)).getD []).flatten]).1.map
        (·.map fun r => r.headers (text "a:b")) = some [none] := by
    simp only [List.mapM_cons, List.mapM_nil, getResponseInString, addedFields, corsFields]
    repeat rw [text_ofList]
    decide +kernel
  rw [htexts, Option.getD_some, hfeed, Option.map_some, Option.some_inj] at hnone
  cases hmatch with
  | cons hreceived hrest =>
    have hsome := hreceived.headers _ List.mem_cons_self
    exact Option.some_ne_none _ (hsome.symm.trans (List.cons.inj hnone).1)

end HttpResponse

end TradingEngine
