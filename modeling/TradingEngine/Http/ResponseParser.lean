import TradingEngine.Http.Response

/-!
# Http/ResponseParser — `HttpsClientResponseParser` and `HttpsClientChunkParser`

The two parsers share one buffer, which is consumed from the front; the rest of their members is a
`ParserState`.  Their loops take fuel: `chunkTurns` and `parseAll` give as much as the buffer
allows.
-/

namespace TradingEngine

open Ascii HttpsClientResponse

/-- `"\r\n"`, and the end of a head. -/
def crlf : List UInt8 := [cr, lf]

def headEnd : List UInt8 := crlf ++ crlf

/-- `ChunkState`. -/
inductive ChunkState
  | readSizeLine
  | readData
  | readDataCRLF
  | readTrailers
  | done
  deriving DecidableEq, Repr

/-- The members of the two parsers, less the buffer. -/
structure ParserState where
  head : Head
  headerParsed : Bool
  chunkState : ChunkState
  chunkBytesRemaining : ℕ

namespace ParserState

/-- The members of a new parser, and `reset_state`. -/
def reset : ParserState := ⟨⟨.reset, 0, false⟩, false, .readSizeLine, 0⟩

/-- The response that is given out: `is_complete` is set. -/
def completed (state : ParserState) : HttpsClientResponse :=
  { state.head.response with isComplete := true }

/-- The state with another body. -/
def withBody (state : ParserState) (body : List UInt8) : ParserState :=
  { state with head.response.body := body }

end ParserState

/-! ## Chunks -/

/-- The value of a hexadecimal digit. -/
def hexDigit (c : UInt8) : Option ℕ :=
  if 48 ≤ c ∧ c ≤ 57 then some (c.toNat - 48)
  else if 97 ≤ c ∧ c ≤ 102 then some (10 + (c.toNat - 97))
  else if 65 ≤ c ∧ c ≤ 70 then some (10 + (c.toNat - 65))
  else none

/-- `parse_hex_size`; the sum wraps. -/
def parseHexSize (s : List UInt8) : Option ℕ :=
  s.foldlM (fun v c => (hexDigit c).map fun d => (v <<< 4 + d) % 2 ^ 64) 0

/-- `ChunkParseResult`. -/
inductive ChunkParseResult
  | done
  | needMoreData
  | error
  deriving DecidableEq, Repr

/-- One turn of the loop of `parse_chunked_body`: it goes on, or returns. -/
inductive ChunkTurn
  | more (state : ParserState) (buffer : List UInt8)
  | result (result : ChunkParseResult) (state : ParserState) (buffer : List UInt8)

/-- The size in a size line, without its extensions. -/
def sizeOfLine (sizeLine : List UInt8) : Option ℕ :=
  let size := trim (sizeLine.takeWhile fun c => c ≠ semicolon)
  if size = [] then none else parseHexSize size

/-- The body of the loop of `parse_chunked_body`. -/
def chunkTurn (state : ParserState) (buffer : List UInt8) : ChunkTurn :=
  match state.chunkState with
  | .readSizeLine =>
    match cut crlf buffer with
    | none => .result .needMoreData state buffer
    | some (sizeLine, rest) =>
      match sizeOfLine sizeLine with
      | none => .result .error state rest
      | some chunkSize =>
        .more
          { state with
            chunkBytesRemaining := chunkSize
            chunkState := if chunkSize = 0 then .readTrailers else .readData }
          rest
  | .readData =>
    if buffer.length < state.chunkBytesRemaining then .result .needMoreData state buffer
    else
      .more
        { state.withBody (state.head.response.body ++ buffer.take state.chunkBytesRemaining) with
          chunkState := .readDataCRLF }
        (buffer.drop state.chunkBytesRemaining)
  | .readDataCRLF =>
    if buffer.length < 2 then .result .needMoreData state buffer
    else if buffer.take 2 ≠ crlf then .result .error state buffer
    else .more { state with chunkState := .readSizeLine, chunkBytesRemaining := 0 } (buffer.drop 2)
  | .readTrailers =>
    if buffer.length < 2 then .result .needMoreData state buffer
    else if buffer.take 2 = crlf then
      .result .done { state with chunkState := .done } (buffer.drop 2)
    else
      match cut headEnd buffer with
      | none => .result .needMoreData state buffer
      | some (_, rest) => .result .done { state with chunkState := .done } rest
  | .done => .result .done state buffer

/-- The loop of `parse_chunked_body`. -/
def chunkTurns : ℕ → ParserState → List UInt8 → ChunkParseResult × ParserState × List UInt8
  | 0, state, buffer => (.needMoreData, state, buffer)
  | fuel + 1, state, buffer =>
    match chunkTurn state buffer with
    | .more state' buffer' => chunkTurns fuel state' buffer'
    | .result result state' buffer' => (result, state', buffer')

/-- `parse_chunked_body`. -/
def parseChunkedBody (state : ParserState) (buffer : List UInt8) :
    ChunkParseResult × ParserState × List UInt8 :=
  chunkTurns (3 * buffer.length + 3) state buffer

/-! ## Responses -/

/-- What the first part of the loop of `parse_all` comes to. -/
inductive HeaderTurn
  | wait
  | throws
  | complete (response : HttpsClientResponse) (buffer : List UInt8)
  | body (state : ParserState) (buffer : List UInt8)

/-- The first part of the loop of `parse_all`: the head. -/
def headerTurn (state : ParserState) (buffer : List UInt8) : HeaderTurn :=
  match cut headEnd buffer with
  | none => .wait
  | some (block, rest) =>
    match parseHeader block state.head with
    | .throws => .throws
    | .rejected => .wait
    | .parsed head =>
      let parsed := { state with head := head, headerParsed := true }
      if ¬ head.isChunked ∧ head.contentLength = 0 then .complete parsed.completed rest
      else .body parsed rest

/-- `(size_t)m_content_length`. -/
def ParserState.bodySize (state : ParserState) : ℕ := (state.head.contentLength % 2 ^ 64).toNat

/-- What `parse_all` returns, with the members and the buffer it leaves; nothing is returned if
`std::stoi` throws. -/
abbrev ParseAllResult := Option (List HttpsClientResponse) × ParserState × List UInt8

/-- A response is returned in front of the others. -/
def ParseAllResult.prepend (response : HttpsClientResponse) (result : ParseAllResult) :
    ParseAllResult :=
  (result.1.map (response :: ·), result.2)

/-- The second part of the loop of `parse_all`: the body.  A response that is complete is returned,
and the loop goes on behind it. -/
def parseBody (goOn : List UInt8 → ParseAllResult) (state : ParserState) (buffer : List UInt8) :
    ParseAllResult :=
  if state.head.isChunked then
    match parseChunkedBody state buffer with
    | (.done, state', rest) => (goOn rest).prepend state'.completed
    | (_, state', rest) => (some [], state', rest)
  else if buffer.length < state.bodySize then (some [], state, buffer)
  else
    (goOn (buffer.drop state.bodySize)).prepend
      (state.withBody (buffer.take state.bodySize)).completed

/-- The loop of `parse_all`.  The exception of `std::stoi` ends the program, and what it leaves in
the parser is not modelled. -/
def parseAllLoop : ℕ → ParserState → List UInt8 → ParseAllResult
  | 0, state, buffer => (some [], state, buffer)
  | fuel + 1, state, buffer =>
    if state.headerParsed then parseBody (parseAllLoop fuel .reset) state buffer
    else
      match headerTurn state buffer with
      | .wait => (some [], state, buffer)
      | .throws => (none, state, buffer)
      | .complete response rest => (parseAllLoop fuel .reset rest).prepend response
      | .body state' rest => parseBody (parseAllLoop fuel .reset) state' rest

/-- `HttpsClientResponseParser`. -/
structure HttpsClientResponseParser where
  buffer : List UInt8
  state : ParserState

namespace HttpsClientResponseParser

/-- A new parser. -/
def fresh : HttpsClientResponseParser := ⟨[], .reset⟩

/-- `append_data`. -/
def appendData (parser : HttpsClientResponseParser) (data : List UInt8) :
    HttpsClientResponseParser :=
  { parser with buffer := parser.buffer ++ data }

/-- `get_leftover_data`. -/
def getLeftoverData (parser : HttpsClientResponseParser) : List UInt8 := parser.buffer

/-- `parse_all`. -/
def parseAll (parser : HttpsClientResponseParser) :
    Option (List HttpsClientResponse) × HttpsClientResponseParser :=
  let after := parseAllLoop (3 * parser.buffer.length + 3) parser.state parser.buffer
  (after.1, ⟨after.2.2, after.2.1⟩)

/-- `append_data` and `parse_all` for each piece, and the responses of all calls. -/
def feedPieces (parser : HttpsClientResponseParser) :
    List (List UInt8) → Option (List HttpsClientResponse) × HttpsClientResponseParser
  | [] => (some [], parser)
  | piece :: pieces =>
    match (parser.appendData piece).parseAll with
    | (none, parser') => (none, parser')
    | (some responses, parser') =>
      ((feedPieces parser' pieces).1.map (responses ++ ·), (feedPieces parser' pieces).2)

end HttpsClientResponseParser

end TradingEngine
