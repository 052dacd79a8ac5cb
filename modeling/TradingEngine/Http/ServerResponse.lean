import TradingEngine.Http.ResponseParser
import TradingEngine.Json.StringBuilder

/-!
# Http/ServerResponse — the response the server writes

`HttpResponse::get_response_in_string` writes the status line, the custom headers as the JSON
serializer renders them, the server's own headers and the content.
-/

namespace TradingEngine

open Ascii

/-! ## Custom headers -/

/-- The data of a header: a `Json`, where `is_string_format` may be off for a string (`plain`), at
the top or inside a container. -/
inductive HeaderData
  | tree (json : Json)
  | plain (value : List UInt8)
  | array (elements : List HeaderData)
  | object (fields : List (List UInt8 × HeaderData))

namespace HeaderData

variable (doubles : DoubleText)

mutual

/-- `write_string_value`. -/
def write : HeaderData → List UInt8
  | .tree json => json.write doubles
  | .plain value => value
  | .array [] => [openBracket, closeBracket]
  | .array (e :: es) => openBracket :: write e ++ writeElements es
  | .object [] => [openBrace, closeBrace]
  | .object ((key, value) :: fs) =>
    openBrace :: quote :: key ++ quote :: colon :: write value ++ writeFields fs

/-- The elements after the first, and the closing bracket. -/
def writeElements : List HeaderData → List UInt8
  | [] => [closeBracket]
  | e :: es => comma :: write e ++ writeElements es

/-- The fields after the first, and the closing brace. -/
def writeFields : List (List UInt8 × HeaderData) → List UInt8
  | [] => [closeBrace]
  | (key, value) :: fs => comma :: quote :: key ++ quote :: colon :: write value ++ writeFields fs

end

/-- `STRING_BUFFER_SIZE`. -/
def stringBufferSize : ℕ := 1000000

/-- `get_string_value`; nothing if the text overruns the buffer on the stack. -/
def getStringValue (data : HeaderData) : Option (List UInt8) :=
  if (data.write doubles).length ≤ stringBufferSize then some (data.write doubles) else none

mutual

/-- The view of the data. -/
def view : HeaderData → JsonView
  | .tree json => json.view
  | .plain value => .scalar (.string value) false
  | .array elements => .array (viewElements elements)
  | .object fields => .object (viewFields fields)

def viewElements : List HeaderData → List JsonView
  | [] => []
  | element :: elements => view element :: viewElements elements

def viewFields : List (List UInt8 × HeaderData) → List (List UInt8 × JsonView)
  | [] => []
  | (key, value) :: fields => (key, view value) :: viewFields fields

end

section View

variable {doubles}

open JsonView

mutual

/-- **The data and its view have one text.** -/
theorem write_view : ∀ data : HeaderData, data.view.write doubles = data.write doubles
  | .tree json => by rw [view, write, json.write_view]
  | .plain value => by
    rw [view, JsonView.write, write, JsonScalar.write, if_neg Bool.false_ne_true]
  | .array [] => by
    rw [view, viewElements, JsonView.write, elementTexts, write]
    rfl
  | .array (e :: es) => by
    have hparts := writeElements_view es
    rw [view, viewElements, JsonView.write, elementTexts, write, write_view e, ← hparts,
      bracketed_cons]
  | .object [] => by
    rw [view, viewFields, JsonView.write, fieldTexts, write]
    rfl
  | .object ((key, value) :: fs) => by
    have hparts := writeFields_view fs
    rw [view, viewFields, JsonView.write, fieldTexts, write, write_view value, ← hparts,
      bracketed_cons]
    simp only [fieldText, List.append_assoc, List.cons_append]

theorem writeElements_view : ∀ es : List HeaderData,
    partsText 1 (elementTexts doubles (viewElements es)) ++ [closeBracket] =
      writeElements doubles es
  | [] => by
    rw [viewElements, elementTexts, writeElements]
    rfl
  | e :: es => by
    rw [viewElements, elementTexts, writeElements, write_view e, ← writeElements_view es,
      partsText_cons, if_pos Nat.one_pos, List.append_assoc, List.append_assoc]
    rfl

theorem writeFields_view : ∀ fs : List (List UInt8 × HeaderData),
    partsText 1 (fieldTexts doubles (viewFields fs)) ++ [closeBrace] = writeFields doubles fs
  | [] => by
    rw [viewFields, fieldTexts, writeFields]
    rfl
  | (key, value) :: fs => by
    rw [viewFields, fieldTexts, writeFields, write_view value, ← writeFields_view fs,
      partsText_cons, if_pos Nat.one_pos, fieldText]
    simp only [List.append_assoc, List.cons_append, List.nil_append]
    rfl

end

/-- **The serializer on the stack** gives the data's text or overruns its buffer. -/
theorem getStringValue_view (data : HeaderData)
    (memory : Vector UInt8 JsonStringBuilder.stringBufferSize) :
    data.view.getStringValue doubles memory = data.getStringValue doubles := by
  rw [JsonView.getStringValue_eq, getStringValue, ← length_write, write_view]
  rfl

end View

/-- What `for_each_with_key` goes over: the fields of an object, and nothing of anything else. -/
def forEachWithKey : HeaderData → List (List UInt8 × HeaderData)
  | .object fields => fields
  | .tree (.object fields) => fields.map fun field => (field.1, .tree field.2)
  | _ => []

end HeaderData

/-! ## The response -/

/-- `ResponseStatusCode`. -/
inductive ResponseStatusCode
  | ok200
  | created201
  | badRequest400
  | unauthorizedRequest401
  | notFound404
  | riskError410
  | internalServerError500
  deriving DecidableEq, Repr

namespace ResponseStatusCode

def code : ResponseStatusCode → ℕ
  | .ok200 => 200
  | .created201 => 201
  | .badRequest400 => 400
  | .unauthorizedRequest401 => 401
  | .notFound404 => 404
  | .riskError410 => 410
  | .internalServerError500 => 500

/-- `response_status_code_map`; the code that is for internal use has no entry. -/
def statusText : ResponseStatusCode → Option (List UInt8)
  | .ok200 => some (text "OK")
  | .created201 => some (text "Created")
  | .badRequest400 => some (text "Bad Request")
  | .unauthorizedRequest401 => some (text "Unauthorized Request")
  | .notFound404 => some (text "Not Found")
  | .riskError410 => none
  | .internalServerError500 => some (text "Internal Server Error")

end ResponseStatusCode

/-- `ResponseFileType`. -/
inductive ResponseFileType
  | js
  | css
  | woff2
  | noneType
  deriving DecidableEq, Repr

/-- `FileInfo`. -/
structure FileInfo where
  fileType : ResponseFileType
  fileName : List UInt8

/-- `HttpResponse`. -/
structure HttpResponse where
  responseCode : ResponseStatusCode
  customHeader : HeaderData
  content : List UInt8
  isJsonFormat : Bool
  fileInfo : FileInfo

/-- `HttpResponse(NOT_FOUND_404, NOT_FOUND_ERROR_MESSAGE)`. -/
def HttpRequest.notFoundMessage : HttpResponse where
  responseCode := .notFound404
  customHeader := .tree .null
  content := text "The given document couldn't be found"
  isJsonFormat := false
  fileInfo := ⟨.noneType, []⟩

namespace HttpResponse

/-- The CORS headers. -/
def corsFields : List (List UInt8 × List UInt8) :=
  [(text "Access-Control-Allow-Origin", text "*"),
    (text "Access-Control-Allow-Headers",
      text "Origin, X-Api-Key, X-Requested-With, Content-Type, Accept, Authorization"),
    (text "Access-Control-Allow-Credentials", text "true"),
    (text "Access-Control-Allow-Methods", text "GET, POST, OPTIONS, PUT, PATCH, DELETE")]

/-- `Content-Type`, if the response has one. -/
def contentType (response : HttpResponse) : List (List UInt8 × List UInt8) :=
  if response.isJsonFormat then [(text "Content-Type", text "application/json")]
  else
    match response.fileInfo.fileType with
    | .js => [(text "Content-Type", text "application/javascript; charset=utf-8")]
    | .css => [(text "Content-Type", text "text/css; charset=utf-8")]
    | .woff2 => [(text "Content-Type", text "font/woff2")]
    | .noneType => []

/-- `Content-Disposition`, if the file has a name. -/
def contentDisposition (response : HttpResponse) : List (List UInt8 × List UInt8) :=
  if response.fileInfo.fileName ≠ [] then
    [(text "Content-Disposition",
      text "attachment; filename=" ++ quote :: (response.fileInfo.fileName ++ [quote]))]
  else []

def contentLength (response : HttpResponse) : List UInt8 × List UInt8 :=
  (text "Content-Length", decimal response.content.length)

/-- The headers the server adds, but for `Content-Length`. -/
def addedFields (response : HttpResponse) : List (List UInt8 × List UInt8) :=
  corsFields ++ response.contentType ++ response.contentDisposition

/-- A header line, without its end. -/
def headerLine (field : List UInt8 × List UInt8) : List UInt8 :=
  field.1 ++ colon :: space :: field.2

variable (doubles : DoubleText)

/-- The custom headers with their texts. -/
def customFields (response : HttpResponse) : Option (List (List UInt8 × List UInt8)) :=
  response.customHeader.forEachWithKey.mapM fun field =>
    (field.2.getStringValue doubles).map fun value => (field.1, value)

/-- `get_response_in_string`; nothing if the code has no text, or a custom header overruns its
buffer. -/
def getResponseInString (response : HttpResponse) : Option (List UInt8) :=
  match response.responseCode.statusText, response.customFields doubles with
  | some status, some custom =>
    some <| text "HTTP/1.1" ++ space :: (decimal response.responseCode.code ++ space :: status) ++
      crlf ++ (custom ++ response.addedFields ++ [response.contentLength]).flatMap
        (fun field => headerLine field ++ crlf) ++ crlf ++ response.content
  | _, _ => none

end HttpResponse

end TradingEngine
