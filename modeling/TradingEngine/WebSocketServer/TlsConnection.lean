import TradingEngine.Socket.TlsReading
import TradingEngine.WebSocketServer.Connection

/-!
# WebSocketServer/TlsConnection — one object of `HttpsWebsocketConnectionIO`

Behind the handshake a TLS connection is read by the loop that was written for `read(2)`.  The loop
takes a 0 for the end of the stream, if it is the first result of a call, and asks `errno`
otherwise; `TlsWrapper::read` says with a 0 that there is nothing yet and leaves `errno` as it is.
`handleRead_kept_iff` says when the connection is kept and closed as the results ask for.
-/

namespace TradingEngine

/-- `TlsResult`. -/
inductive TlsResult
  | ok
  | wantIo
  | error
  deriving DecidableEq, Repr

/-- `HttpsWebsocketConnectionIO`, with the handshake of its `TlsWrapper`. -/
structure HttpsWebsocketConnectionIO where
  base : HttpWebsocketConnectionIO
  handshakeDone : Bool

/-- A call of `read_buffer` through the `TlsWrapper`: what it returns, whether `errno` is `EAGAIN`
behind it, and what the socket does with an answer. -/
structure TlsReadCall where
  result : TlsRead
  again : Bool
  outcome : SocketOutcome
  deriving DecidableEq

/-- What the loop makes of it. -/
def TlsReadCall.asRead (call : TlsReadCall) : ReadResult :=
  match call.result with
  | .bytes first rest => .bytes first rest call.outcome
  | .noData => .closed call.again
  | .lost => if call.again then .wouldBlock else .fails

/-- The bytes of a read, and what the socket does with an answer. -/
structure TlsPiece where
  first : UInt8
  rest : List UInt8
  outcome : SocketOutcome

/-- The read that gives them; `errno` is not looked at. -/
def TlsPiece.call (piece : TlsPiece) : TlsReadCall :=
  ⟨.bytes piece.first piece.rest, false, piece.outcome⟩

namespace HttpsWebsocketConnectionIO

variable (sha1 : List UInt8 → List UInt8)

/-- `handle_read`: the object, what is done, and the code. -/
def handleRead (conn : HttpsWebsocketConnectionIO) (handshake : TlsResult)
    (calls : List TlsReadCall) :
    Option <| HttpsWebsocketConnectionIO × List ConnectionEffect × ℤ :=
  if ¬ conn.handshakeDone then
    match handshake with
    | .error => some (conn, [], -1)
    | .ok => some ({ conn with handshakeDone := true }, [], 0)
    | .wantIo => some (conn, [], 0)
  else
    (conn.base.handleRead sha1 true (calls.map TlsReadCall.asRead)).map fun handled =>
      ({ conn with base := handled.conn }, handled.effects, handled.code)

/-- The byte handlers return 0 on some reads, one after the other. -/
def BytesHandled (conn : HttpWebsocketConnectionIO) : List TlsPiece → Prop
  | [] => True
  | piece :: pieces => ∃ handled,
    conn.handleBytes sha1 (piece.first :: piece.rest) piece.outcome = some handled ∧
      handled.code = 0 ∧ BytesHandled handled.conn pieces

/-- The code for a last result, where bytes came in front of it or not. -/
def lastCode (isFirstRead : Bool) (last : TlsReadCall) : ℤ :=
  if last.result = .noData ∧ isFirstRead then -1 else if last.again then 0 else -1

/-- **What is asked of a call**: it closes the connection exactly if a read was negative, and keeps
it if there was nothing yet. -/
def Kept (last : TlsRead) (code : ℤ) : Prop :=
  (code = -1 ↔ last = .lost) ∧ (last = .noData → code = 0)

variable {sha1} {conn : HttpWebsocketConnectionIO} {pieces : List TlsPiece} {last : TlsReadCall}

/-- The loop at its last read. -/
theorem handleRead_last (hlast : last.result = .noData ∨ last.result = .lost) (isFirstRead : Bool)
    (reads : List ReadResult) :
    conn.handleRead sha1 isFirstRead (last.asRead :: reads) =
      some ⟨conn, [], lastCode isFirstRead last⟩ := by
  rw [TlsReadCall.asRead, lastCode]
  rcases hlast with h | h <;> rw [h]
  · cases isFirstRead <;> cases last.again <;> rfl
  · cases last.again <;> rfl

/-- **The loop** ends with the code of its last read. -/
theorem code_handleRead (hpieces : BytesHandled sha1 conn pieces)
    (hlast : last.result = .noData ∨ last.result = .lost) (isFirstRead : Bool)
    (reads : List ReadResult) :
    ∃ handled, conn.handleRead sha1 isFirstRead
        (pieces.map (TlsReadCall.asRead ∘ TlsPiece.call) ++ last.asRead :: reads) = some handled ∧
      handled.code = lastCode (isFirstRead && pieces.isEmpty) last := by
  induction pieces generalizing conn isFirstRead with
  | nil =>
    refine ⟨_, handleRead_last hlast isFirstRead reads, ?_⟩
    rw [List.isEmpty_nil, Bool.and_true]
  | cons piece pieces ih =>
    obtain ⟨handled, hhandled, hcode, hrest⟩ := hpieces
    obtain ⟨later, hlater, hlaterCode⟩ := ih hrest false
    refine ⟨{ later with effects := handled.effects ++ later.effects }, ?_, ?_⟩
    · change (conn.handleBytes sha1 (piece.first :: piece.rest) piece.outcome).bind _ = _
      rw [hhandled, Option.bind_some, if_neg (not_not.mpr hcode)]
      exact congrArg (Option.map _) hlater
    · rw [List.isEmpty_cons, Bool.and_false]
      exact hlaterCode

/-- The results for which the loop does what is asked: nothing yet, behind some bytes and with
`errno` saying so, or a negative result with `errno` not saying so. -/
def ErrnoFits (pieces : List TlsPiece) (last : TlsReadCall) : Prop :=
  if last.result = .noData then pieces ≠ [] ∧ last.again = true else last.again = false

/-- **A read that would block, exactly.**  Behind the handshake, with byte handlers that return 0, a
call closes the connection for a negative result and keeps it for nothing yet if and only if `errno`
fits the last result, and nothing yet was not the first one. -/
theorem handleRead_kept_iff {conn : HttpsWebsocketConnectionIO} (hdone : conn.handshakeDone = true)
    (hpieces : BytesHandled sha1 conn.base pieces)
    (hlast : last.result = .noData ∨ last.result = .lost) (handshake : TlsResult)
    (more : List TlsReadCall) :
    ∃ conn' effects code,
      conn.handleRead sha1 handshake (pieces.map TlsPiece.call ++ last :: more) =
        some (conn', effects, code) ∧
      (Kept last.result code ↔ ErrnoFits pieces last) := by
  obtain ⟨handled, hhandled, hcode⟩ :=
    code_handleRead hpieces hlast true (more.map TlsReadCall.asRead)
  refine ⟨{ conn with base := handled.conn }, handled.effects, handled.code, ?_, ?_⟩
  · rw [handleRead.eq_def, if_neg (not_not.mpr hdone), List.map_append, List.map_map, List.map_cons,
      hhandled, Option.map_some]
  · rw [hcode, Bool.true_and, Kept, ErrnoFits, lastCode]
    rcases hlast with h | h <;> rw [h] <;> cases pieces <;> cases last.again <;> simp

/-- A new connection behind its handshake. -/
def ready : HttpsWebsocketConnectionIO := ⟨.fresh, true⟩

/-- The first byte of a request. -/
def requestByte : TlsPiece := ⟨71, [], .wouldBlock⟩

theorem ready_kept :
    ∃ conn' effects code,
      ready.handleRead (fun _ => []) .ok ([requestByte].map TlsPiece.call ++
          [(⟨.noData, true, .wouldBlock⟩ : TlsReadCall)]) = some (conn', effects, code) ∧
      (Kept .noData code ↔ ErrnoFits [requestByte] ⟨.noData, true, .wouldBlock⟩) := by
  have hpieces : BytesHandled (fun _ => []) ready.base [requestByte] := ⟨_, rfl, rfl, trivial⟩
  exact handleRead_kept_iff rfl hpieces (.inl rfl) .ok []

/-- **Three ways to miss**: nothing yet at once, nothing yet behind a byte with `errno` of something
else, and a connection that is lost with `errno` of an earlier call. -/
theorem ready_not_kept :
    (ready.handleRead (fun _ => []) .ok [⟨.noData, true, .wouldBlock⟩]).map (·.2.2) = some (-1) ∧
    (ready.handleRead (fun _ => []) .ok [requestByte.call, ⟨.noData, false, .wouldBlock⟩]).map
      (·.2.2) = some (-1) ∧
    (ready.handleRead (fun _ => []) .ok [requestByte.call, ⟨.lost, true, .wouldBlock⟩]).map
      (·.2.2) = some 0 ∧
    ¬ Kept .noData (-1) ∧ ¬ Kept .lost 0 := by
  refine ⟨rfl, rfl, rfl, fun h => ?_, fun h => ?_⟩
  · exact absurd (h.2 rfl) (by decide)
  · exact absurd (h.1.mpr rfl) (by decide)

end HttpsWebsocketConnectionIO

end TradingEngine
