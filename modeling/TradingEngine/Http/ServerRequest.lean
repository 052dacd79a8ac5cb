import Mathlib.Logic.Function.Basic
import TradingEngine.Http.ResponseParser
import TradingEngine.Json.Parse

/-!
# Http/ServerRequest — `HttpRequest`, and the read handler of a connection of the REST server

A request is made anew from all bytes that have come; positions in its text are `find` of the
standard library.  The constructor of a request with a body parses the body as JSON and as a form,
and both loops may never end, so what may run on takes fuel.
-/

namespace TradingEngine

open Ascii

/-- What a call comes to: it is still running, an exception leaves it, or it returns. -/
inductive Call (α : Type)
  | running
  | throws
  | ok (value : α)

/-- A call behind another. -/
def Call.andThen {α β : Type} (call : Call α) (f : α → Call β) : Call β :=
  match call with
  | .running => .running
  | .throws => .throws
  | .ok value => f value

/-! ## Strings -/

/-- `find`. -/
def find (needle s : List UInt8) : Option ℕ :=
  if needle = [] then some 0 else (cut needle s).map (·.1.length)

/-- `find` from a position on. -/
def findFrom (needle : List UInt8) (pos : ℕ) (s : List UInt8) : Option ℕ :=
  if pos ≤ s.length then (find needle (s.drop pos)).map (pos + ·) else none

/-- `substr` up to a position, or to the end if the position is not behind the start. -/
def substr (start : ℕ) (stop : Option ℕ) (s : List UInt8) : Call (List UInt8) :=
  if s.length < start then .throws
  else
    match stop with
    | some stop => .ok (if start ≤ stop then (s.take stop).drop start else s.drop start)
    | none => .ok (s.drop start)

/-- The pieces between the delimiters, at most `fuel` of them cut off. -/
def splitLoop (del : List UInt8) : ℕ → List UInt8 → List (List UInt8)
  | 0, s => [s]
  | fuel + 1, s =>
    match cut del s with
    | none => [s]
    | some (piece, rest) => piece :: splitLoop del fuel rest

/-- `Utils::split_string`. -/
def splitString (del s : List UInt8) : List (List UInt8) := splitLoop del s.length s

/-- `insert` into a map: a key that is there keeps its value. -/
def insertParam (params : List UInt8 → Option (List UInt8)) (param : List UInt8 × List UInt8) :
    List UInt8 → Option (List UInt8) :=
  if (params param.1).isSome then params else Function.update params param.1 (some param.2)

/-! ## The request -/

/-- `RequestMethod`. -/
inductive RequestMethod
  | get
  | post
  | options
  | head
  | put
  | delete
  | patch
  deriving DecidableEq, Repr

namespace RequestMethod

/-- The words of `request_method_map`. -/
def word : RequestMethod → List UInt8
  | .get => text "GET"
  | .post => text "POST"
  | .options => text "OPTIONS"
  | .head => text "HEAD"
  | .put => text "PUT"
  | .delete => text "DELETE"
  | .patch => text "PATCH"

/-- `request_method_map`. -/
def ofWord (word : List UInt8) : Option RequestMethod :=
  [.get, .post, .options, .head, .put, .delete, .patch].find? fun method => method.word = word

/-- The generator makes an `HttpRequestPost`, or a class made from it. -/
def hasBody : RequestMethod → Bool
  | .post => true
  | .put => true
  | .delete => true
  | _ => false

end RequestMethod

/-- `HttpRequest`, with the body and the JSON of `HttpRequestPost`. -/
structure HttpRequest where
  method : RequestMethod
  clientIp : List UInt8
  url : List UInt8
  queryString : List UInt8
  queryParams : List UInt8 → Option (List UInt8)
  headerParams : List UInt8 → Option (List UInt8)
  body : List UInt8
  bodyJson : Json

namespace HttpRequest

/-- `deserialize_url`: what stands between the first two spaces. -/
def deserializeUrl (content : List UInt8) : List UInt8 :=
  let target := (content.dropWhile fun c => c ≠ space).tail
  if space ∈ target then target.takeWhile fun c => c ≠ space else []

/-- 63, the question mark. -/
def questionMark : UInt8 := 63

/-- `deserialize_query_string`: the URL, and the query string. -/
def deserializeQueryString (url : List UInt8) : List UInt8 × List UInt8 :=
  (url.takeWhile fun c => c ≠ questionMark, (url.dropWhile fun c => c ≠ questionMark).tail)

/-- 61, the equals sign, and 38, the ampersand. -/
def equalsSign : UInt8 := 61

def ampersand : UInt8 := 38

/-- `deserialize_query_params`: up to a parameter without an equals sign. -/
def deserializeQueryParams (query : List UInt8) : List UInt8 → Option (List UInt8) :=
  (((splitString [ampersand] query).takeWhile fun param => equalsSign ∈ param).map fun param =>
    (param.takeWhile fun c => c ≠ equalsSign, (param.dropWhile fun c => c ≠ equalsSign).tail)).foldl
      insertParam fun _ => none

/-- A header line that is split into two parts. -/
def headerPair (line : List UInt8) : Option (List UInt8 × List UInt8) :=
  match splitString [colon, space] line with
  | [name, value] => some (name, value)
  | _ => none

/-- `find_first_of("\r\n", 0) + 2`, where `npos + 2` is 1. -/
def startOfHeader (content : List UInt8) : ℕ :=
  if cr ∈ content ∨ lf ∈ content then (content.takeWhile fun c => c ≠ cr ∧ c ≠ lf).length + 2 else 1

/-- `deserialize_header_params`. -/
def deserializeHeaderParams (content : List UInt8) : Call (List UInt8 → Option (List UInt8)) :=
  (substr (startOfHeader content) (find headEnd content) content).andThen fun block =>
    .ok (((splitString crlf block).filterMap headerPair).foldl insertParam fun _ => none)

/-! ## The body -/

/-- `m_body_json[key] = value`. -/
def setBodyField (json : Json) (key value : List UInt8) : Json :=
  match json with
  | .object fields => .object (JsonParse.setField fields key (.string value))
  | _ => .object (JsonParse.setField [] key (.string value))

/-- `key_format`. -/
def keyFormat : List UInt8 := text "Content-Disposition: form-data; name="

/-- The loop of `deserialize_body_form_data`; its positions are `int`s, where `npos` is -1. -/
def formDataLoop (body frameFormat : List UInt8) : ℕ → Option ℕ → Json → Call Json
  | 0, _, _ => .running
  | fuel + 1, start, json =>
    match start.bind fun start => findFrom keyFormat start body with
    | none => .ok json
    | some found =>
      let keyStart := found + keyFormat.length + 1
      let keyEnd := findFrom [quote] keyStart body
      let valueStart :=
        ((keyEnd.bind fun keyEnd => findFrom headEnd keyEnd body).map (· + 4)).getD 3
      (substr keyStart keyEnd body).andThen fun key =>
        (substr valueStart (findFrom crlf valueStart body) body).andThen fun value =>
          formDataLoop body frameFormat fuel
            (start.bind fun start => findFrom frameFormat (start + frameFormat.length) body)
            (setBodyField json key value)

/-- `deserialize_body_form_data`. -/
def deserializeBodyFormData (fuel : ℕ) (body : List UInt8) (json : Json) : Call Json :=
  match find keyFormat body with
  | none => .ok json
  | some found => formDataLoop body (body.take found) fuel (some 0) json

/-- `deserialize_body_raw_data`. -/
def deserializeBodyRawData (body : List UInt8) (json : Json) : Json :=
  match json with
  | .null =>
    (splitString [ampersand] body).foldl
      (fun json param =>
        match splitString [equalsSign] param with
        | key :: value :: _ => setBodyField json key value
        | _ => json) .null
  | _ => json

variable (doubles : DoubleText)

/-- The JSON of a body: `Json::parse`, the form, and the raw parameters. -/
def parseBody (fuel : ℕ) (body : List UInt8) : Call Json :=
  match JsonParse.parse doubles fuel body with
  | none => .running
  | some (json, _) =>
    (deserializeBodyFormData fuel body json).andThen fun json =>
      .ok (deserializeBodyRawData body json)

/-- `deserialize_body`: what stands behind the empty line, or behind the third character if there is
none. -/
def bodyOf (content : List UInt8) : List UInt8 :=
  match find headEnd content with
  | some found => content.drop (found + 4)
  | none => content.drop 3

/-! ## The constructors -/

/-- `HttpRequest::deserialize`. -/
def deserialize (method : RequestMethod) (content : List UInt8) : Call HttpRequest :=
  let split := deserializeQueryString (deserializeUrl content)
  (deserializeHeaderParams content).andThen fun headerParams => .ok
    { method := method
      clientIp := []
      url := split.1
      queryString := split.2
      queryParams := deserializeQueryParams split.2
      headerParams := headerParams
      body := []
      bodyJson := .null }

/-- The generator of a method. -/
def generate (fuel : ℕ) (method : RequestMethod) (content : List UInt8) : Call HttpRequest :=
  (deserialize method content).andThen fun request =>
    if method.hasBody then
      (parseBody doubles fuel (bodyOf content)).andThen fun json => .ok
        { request with body := bodyOf content, bodyJson := json }
    else .ok request

/-- `CreateNewHttpRequest`; `none` is `nullptr`. -/
def createNewHttpRequest (fuel : ℕ) (content : List UInt8) : Option (Call HttpRequest) :=
  if space ∈ content then
    (RequestMethod.ofWord (content.takeWhile fun c => c ≠ space)).map fun method =>
      generate doubles fuel method content
  else none

/-- `PARAM_NOT_FOUND`. -/
def paramNotFound : List UInt8 := text "PARAM_NOT_FOUND"

/-- `get_header_param`. -/
def getHeaderParam (request : HttpRequest) (param : List UInt8) : List UInt8 :=
  (request.headerParams param).getD paramNotFound

/-- The content length that `is_valid_format` goes by; `none` if `std::stoi` throws. -/
def contentLength (request : HttpRequest) : Option ℤ :=
  if request.getHeaderParam (text "Content-Length") ≠ paramNotFound then
    stoi (request.getHeaderParam (text "Content-Length"))
  else if request.getHeaderParam (text "content-length") ≠ paramNotFound then
    stoi (request.getHeaderParam (text "content-length"))
  else some 0

/-- `is_valid_format`; `none` if `std::stoi` throws. -/
def isValidFormat (request : HttpRequest) : Option Bool :=
  if request.method.hasBody then
    request.contentLength.map fun n => n = 0 ∨ n = (request.body.length : ℤ)
  else some true

end HttpRequest

/-! ## The connection -/

/-- `HttpSocketConnection`: what the read handler uses of it. -/
structure HttpSocketConnection where
  saveBuffer : List UInt8
  clientIp : List UInt8

/-- What a call of the read handler starts: nothing, the 404 task, or the task of a request. -/
inductive ReadOutcome
  | waits
  | sends404
  | executes (request : HttpRequest)

/-- `c_str()`. -/
def cStr (s : List UInt8) : List UInt8 := s.takeWhile fun c => c ≠ 0

namespace HttpSocketConnection

variable (doubles : DoubleText)

/-- `handle_read` behind its reads, with what they have read. -/
def handleRead (fuel : ℕ) (conn : HttpSocketConnection) (buffer : List UInt8) :
    Call (ReadOutcome × HttpSocketConnection) :=
  match HttpRequest.createNewHttpRequest doubles fuel (cStr (conn.saveBuffer ++ buffer)) with
  | none => .ok (.sends404, conn)
  | some call =>
    call.andThen fun request =>
      match request.isValidFormat with
      | none => .throws
      | some false => .ok (.waits, { conn with saveBuffer := conn.saveBuffer ++ buffer })
      | some true =>
        .ok (.executes { request with clientIp := conn.clientIp }, { conn with saveBuffer := [] })

end HttpSocketConnection

end TradingEngine
