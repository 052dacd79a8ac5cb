import Mathlib.Data.List.TakeDrop
import TradingEngine.Http.ServerResponse
import TradingEngine.Socket.WriteStream

/-!
# Http/ResponseWriting — the responses on one connection of the REST server

`execute_request` and `send_404_response` call `write_to_socket_io` once for a whole response and
look for -1 only; `handle_write` does nothing.  So a connection that stays open has got its
responses whole exactly as long as the socket takes each of them at once or the call fails
(`whole_iff`).  What a task does behind the end of its connection is not part of this module.
-/

namespace TradingEngine

/-- `HttpSocketConnection`, or `HttpsSocketConnection`. -/
inductive Transport
  | http
  | https
  deriving DecidableEq, Repr

/-- `write_to_socket_io` of the two. -/
def Transport.writeToSocketIo : Transport → WriteToSocketIo
  | .http => rawWriteToSocketIo
  | .https => tlsWriteToSocketIo

/-- A response, and the text `get_response_in_string` has made of it. -/
structure ResponseText (doubles : DoubleText) where
  response : HttpResponse
  bytes : List UInt8
  written : response.getResponseInString doubles = some bytes

/-- A connection: it is open until `del_fd`; the bytes its socket has taken; the responses that were
executed on it. -/
structure ServedConnection where
  isOpen : Bool
  accepted : List UInt8
  responses : List (List UInt8)
  deriving DecidableEq, Repr

/-- What happens on a connection; what the socket does with a response comes with it. -/
inductive ServedEvent (doubles : DoubleText)
  | executeRequest (text : ResponseText doubles) (outcome : SocketOutcome)
  | send404Response (text : ResponseText doubles) (outcome : SocketOutcome)
  | handleWrite
  | disconnect

namespace ServedConnection

/-- A connection that was accepted. -/
def start : ServedConnection := ⟨true, [], []⟩

variable (transport : Transport)

/-- What the one call of `write_to_socket_io` returns. -/
def writeResult (text : List UInt8) (outcome : SocketOutcome) : ℤ :=
  (transport.writeToSocketIo outcome (toUint32 text.length)).n

/-- The end of `execute_request`, and `send_404_response`: one write; -1 closes the connection. -/
def sendResponse (conn : ServedConnection) (text : List UInt8) (outcome : SocketOutcome) :
    ServedConnection :=
  if conn.isOpen then
    { isOpen := writeResult transport text outcome ≠ -1
      accepted := conn.accepted ++ text.take (writeResult transport text outcome).toNat
      responses := conn.responses ++ [text] }
  else conn

variable {doubles : DoubleText}

/-- **A step.** -/
def step (conn : ServedConnection) : ServedEvent doubles → ServedConnection
  | .executeRequest text outcome => conn.sendResponse transport text.bytes outcome
  | .send404Response text outcome => conn.sendResponse transport text.bytes outcome
  | .handleWrite => conn
  | .disconnect => { conn with isOpen := false }

/-- An open connection has got the responses, one behind the other. -/
def Whole (conn : ServedConnection) : Prop :=
  conn.isOpen = true → conn.accepted = conn.responses.flatten

/-- The socket takes the response at once, or the call fails. -/
def TakenOrFailed (text : List UInt8) (outcome : SocketOutcome) : Prop :=
  writeResult transport text outcome = -1 ∨ writeResult transport text outcome = text.length

/-- The same for the response of a step, if the connection is open. -/
def NeverShort (conn : ServedConnection) : ServedEvent doubles → Prop
  | .executeRequest text outcome => conn.isOpen = true → TakenOrFailed transport text.bytes outcome
  | .send404Response text outcome =>
    conn.isOpen = true → TakenOrFailed transport text.bytes outcome
  | .handleWrite => True
  | .disconnect => True

variable {transport} {conn : ServedConnection} {text : List UInt8} {outcome : SocketOutcome}

theorem counts (transport : Transport) : Outgoing.Counts transport.writeToSocketIo := by
  cases transport
  · exact raw_counts
  · exact tls_counts

theorem writeResult_le : writeResult transport text outcome ≤ text.length :=
  ((counts transport).le_size _ _).trans (by exact_mod_cast toUint32_le text.length)

/-- The one negative result is -1. -/
theorem neg_one_le_writeResult : -1 ≤ writeResult transport text outcome := by
  cases transport <;> cases outcome <;>
    simp only [writeResult, Transport.writeToSocketIo, rawWriteToSocketIo, tlsWriteToSocketIo,
      TlsWrapper.write]
  all_goals omega

/-- **A response is whole exactly when the socket takes it at once or the call fails.** -/
theorem whole_sendResponse_iff (h : conn.Whole) :
    (conn.sendResponse transport text outcome).Whole ↔
      (conn.isOpen = true → TakenOrFailed transport text outcome) := by
  unfold sendResponse
  split
  · next hopen =>
    have hle : writeResult transport text outcome ≤ text.length := writeResult_le
    have hge : -1 ≤ writeResult transport text outcome := neg_one_le_writeResult
    simp only [Whole, TakenOrFailed, hopen, h hopen, decide_eq_true_eq, forall_const,
      List.flatten_append, List.flatten_singleton, List.append_cancel_left_eq,
      List.take_eq_self_iff,
      ne_eq]
    constructor
    · intro htaken
      by_cases hfail : writeResult transport text outcome = -1
      · exact .inl hfail
      · have hlength := htaken hfail
        exact .inr (by omega)
    · rintro (hfail | htaken) hne
      · exact absurd hfail hne
      · omega
  · next hclosed => exact iff_of_true h fun hopen => absurd hopen hclosed

theorem whole_step_iff (h : conn.Whole) (event : ServedEvent doubles) :
    (conn.step transport event).Whole ↔ conn.NeverShort transport event := by
  cases event with
  | executeRequest text outcome => exact whole_sendResponse_iff h
  | send404Response text outcome => exact whole_sendResponse_iff h
  | handleWrite => exact iff_of_true h trivial
  | disconnect => exact iff_of_true (fun hopen => absurd hopen Bool.false_ne_true) trivial

/-- **The responses on a connection are whole, in every state of a run, exactly when** each of them
is taken at once or its call fails. -/
theorem whole_iff (transport : Transport) (events : List (ServedEvent doubles)) :
    Run.Along (step transport) (fun conn event => (conn.step transport event).Whole) start events ↔
      Run.Along (step transport) (NeverShort transport) start events :=
  Run.along_iff_of_invariant (I := Whole) (L := fun _ _ => True)
    (fun _ event h _ hshort => (whole_step_iff h event).mpr hshort)
    (fun _ event h _ => whole_step_iff h event) (fun _ => rfl)
    (Run.along_of_forall (fun _ _ => trivial) _ _)

/-- The answer to a wrong request: it is written whatever doubles look like. -/
def notFoundText (doubles : DoubleText) : ResponseText doubles where
  response := HttpRequest.notFoundMessage
  bytes := (HttpRequest.notFoundMessage.getResponseInString doubles).get rfl
  written := (Option.some_get _).symm

/-- A TLS connection whose socket would block stays open, and its response is lost. -/
theorem https_response_lost :
    ¬ ∀ (doubles : DoubleText) (transport : Transport) (events : List (ServedEvent doubles)),
      Run.Along (step transport) (fun conn event => (conn.step transport event).Whole) start
        events := by
  intro h
  have hlost := (h ⟨fun _ => [], fun _ => none⟩ .https
    [.send404Response (notFoundText _) .wouldBlock]).1
  exact absurd (hlost (by decide +kernel)) (by decide +kernel)

end ServedConnection

end TradingEngine
