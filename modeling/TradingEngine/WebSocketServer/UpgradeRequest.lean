import TradingEngine.Http.ServerRequest

/-!
# WebSocketServer/UpgradeRequest — the request that opens a connection, and its answer

`is_websocket_upgrade_request` reads the request line with `>>` and each header with a scan of its
own.  The answer carries a digest of the client's key; the digest is computed outside of this
repository and enters as a parameter.
-/

namespace TradingEngine

open Ascii

/-- `HttpMethod`. -/
inductive UpgradeMethod
  | unknown
  | get
  | post
  deriving DecidableEq, Repr

/-- `HttpVersion`. -/
inductive HttpVersion
  | unknown
  | http10
  | http11
  | http20
  deriving DecidableEq, Repr

/-- `WebsocketUpgradeRequest`: what the server reads of it. -/
structure WebsocketUpgradeRequest where
  method : UpgradeMethod
  httpVersion : HttpVersion
  path : List UInt8
  isWebsocketUpgrade : Bool
  connectionUpgrade : Bool
  websocketVersion : ℤ
  websocketKey : List UInt8
  accessToken : List UInt8
  deriving DecidableEq, Repr

namespace WebsocketUpgradeRequest

/-- `{}`. -/
def empty : WebsocketUpgradeRequest := ⟨.unknown, .unknown, [], false, false, -1, [], []⟩

/-- `trim`. -/
def trim (s : List UInt8) : List UInt8 := (s.dropWhile isSpace).rdropWhile isSpace

/-- `to_lower`. -/
def toLower (s : List UInt8) : List UInt8 := s.map lower

/-- `stream >> word`: the word and the rest, if there is one. -/
def extractWord (s : List UInt8) : Option (List UInt8 × List UInt8) :=
  let rest := s.dropWhile isSpace
  if rest = [] then none
  else some (rest.takeWhile (!isSpace ·), rest.dropWhile (!isSpace ·))

/-- The method of a word. -/
def methodOf (word : List UInt8) : UpgradeMethod :=
  if word = text "GET" then .get else if word = text "POST" then .post else .unknown

/-- The version of a word. -/
def versionOf (word : List UInt8) : HttpVersion :=
  if word = text "HTTP/1.0" then .http10
  else if word = text "HTTP/1.1" then .http11
  else if word = text "HTTP/2.0" then .http20
  else .unknown

/-- The request line; the path is there as soon as it has been read. -/
def parseRequestLine (line : List UInt8) : WebsocketUpgradeRequest :=
  match extractWord line with
  | none => empty
  | some (method, rest) =>
    match extractWord rest with
    | none => empty
    | some (path, rest) =>
      match extractWord rest with
      | none => { empty with path := path }
      | some (version, _) =>
        { empty with path := path, method := methodOf method, httpVersion := versionOf version }

/-- The value of a line with a name. -/
def headerValueOf (name line : List UInt8) : Option (List UInt8) :=
  if colon ∈ line ∧ toLower (trim (line.takeWhile (· ≠ colon))) = name then
    some (trim (line.dropWhile (· ≠ colon)).tail)
  else none

/-- `get_header_value`, with the name in small letters. -/
def getHeaderValue (requestText name : List UInt8) : List UInt8 :=
  ((((getLines requestText).tail.map popCr).takeWhile (· ≠ [])).findSome?
    (headerValueOf name)).getD []

/-- `parse_cookie_header`: the last value of a key. -/
def parseCookieHeader (header : List UInt8) : List UInt8 → Option (List UInt8) :=
  (((splitString [semicolon] header).filter (HttpRequest.equalsSign ∈ ·)).map fun pair =>
    (trim (pair.takeWhile (· ≠ HttpRequest.equalsSign)),
      trim (pair.dropWhile (· ≠ HttpRequest.equalsSign)).tail)).foldl
    (fun cookies cookie => Function.update cookies cookie.1 (some cookie.2)) fun _ => none

/-- `std::atoi`, which says nothing about numbers out of range. -/
def atoi (s : List UInt8) : ℤ := ((signedDigits (s.dropWhile isSpace)).map (·.1)).getD 0

/-- What `is_websocket_upgrade_request` makes of a request. -/
def parse (requestText : List UInt8) : WebsocketUpgradeRequest :=
  let header := fun name => getHeaderValue requestText (text name)
  { parseRequestLine (popCr ((getLines requestText).headD [])) with
    websocketKey := header "sec-websocket-key"
    isWebsocketUpgrade := toLower (header "upgrade") = text "websocket"
    connectionUpgrade := (find (text "upgrade") (toLower (header "connection"))).isSome
    websocketVersion :=
      if header "sec-websocket-version" = [] then -1 else atoi (header "sec-websocket-version")
    accessToken := (parseCookieHeader (header "cookie") (text "accessToken")).getD [] }

/-- What it returns. -/
def isValid (request : WebsocketUpgradeRequest) : Bool :=
  request.method = .get ∧ request.httpVersion = .http11 ∧ request.isWebsocketUpgrade ∧
    request.connectionUpgrade ∧ request.websocketVersion = 13 ∧ request.websocketKey ≠ []

/-! ## The answer -/

/-- The characters of `base64_encode`. -/
def base64Table : List UInt8 :=
  text "ABCDEFGHIJKLMNOPQRSTUVWXYZabcdefghijklmnopqrstuvwxyz0123456789+/"

/-- A character of the table. -/
def base64Char (n : ℕ) : UInt8 := base64Table.getD (n % 64) 0

/-- `base64_encode`: three bytes, or the last one or two, give four characters. -/
def base64Encode : List UInt8 → List UInt8
  | a :: b :: c :: data =>
    let triple := a.toNat * 2 ^ 16 + b.toNat * 2 ^ 8 + c.toNat
    base64Char (triple / 2 ^ 18) :: base64Char (triple / 2 ^ 12) :: base64Char (triple / 2 ^ 6) ::
      base64Char triple :: base64Encode data
  | [a, b] =>
    let triple := a.toNat * 2 ^ 16 + b.toNat * 2 ^ 8
    [base64Char (triple / 2 ^ 18), base64Char (triple / 2 ^ 12), base64Char (triple / 2 ^ 6), 61]
  | [a] =>
    let triple := a.toNat * 2 ^ 16
    [base64Char (triple / 2 ^ 18), base64Char (triple / 2 ^ 12), 61, 61]
  | [] => []

/-- `WEBSOCKET_GUID`. -/
def websocketGuid : List UInt8 := text "258EAFA5-E914-47DA-95CA-C5AB0DC85B11"

variable (sha1 : List UInt8 → List UInt8)

/-- `compute_websocket_accept_key`. -/
def computeWebsocketAcceptKey (key : List UInt8) : List UInt8 :=
  base64Encode (sha1 (trim key ++ websocketGuid))

/-- `build_websocket_upgrade_response`. -/
def buildUpgradeResponse (key : List UInt8) : List UInt8 :=
  text "HTTP/1.1 101 Switching Protocols\r\n" ++ text "Upgrade: websocket\r\n" ++
    text "Connection: Upgrade\r\n" ++ text "Sec-WebSocket-Accept: " ++
      computeWebsocketAcceptKey sha1 key ++ headEnd

/-- `bad_request`. -/
def badRequest : List UInt8 :=
  text "HTTP/1.1 400 Bad Request\r\n" ++ text "Content-Length: 0\r\n" ++ text "Connection: close" ++
    headEnd

/-- A client of `/order` asks for its connection. -/
def orderUpgrade : List UInt8 :=
  text "GET /order HTTP/1.1\r\nUpgrade: websocket\r\nConnection: keep-alive, Upgrade\r\n" ++
    text "Sec-WebSocket-Version: 13\r\nSec-WebSocket-Key: k\r\nCookie: a=b; accessToken=t" ++
      headEnd

/-- It is found in one piece, and it is valid. -/
theorem orderUpgrade_read :
    cut headEnd orderUpgrade = some (orderUpgrade.take 149, []) ∧
      orderUpgrade.take 149 ++ headEnd = orderUpgrade ∧ (parse orderUpgrade).isValid = true := by
  rw [orderUpgrade, text_ofList, text_ofList]
  decide +kernel

end WebsocketUpgradeRequest

end TradingEngine
