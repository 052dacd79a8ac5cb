import TradingEngine.Coroutine.EventQueue
import TradingEngine.Http.ClientBuffer
import TradingEngine.Http.ClientRequest
import TradingEngine.Http.ResponseStream
import TradingEngine.Machinery.Run

/-!
# Http/ClientReconnect — the answers to requests, over many connections

A response is matched with a request by its place in the queue alone, and the parser and the data on
its way outlive a connection.  So every request gets its own answer as long as nothing of a
connection is left when the next one is made.  What is completed is posted to the event queue of the
thread, which must have the places for it, and what is read at once must fit the reader's buffer.
-/

namespace TradingEngine

open Run HttpsClientResponseParser

/-- An `HttpsClientRequest` on its connections: the requests that were written on the last one, how
many bytes of their answers have come, and the requests that were completed. -/
structure ClientReconnect where
  client : HttpsClientRequest
  connected : Bool
  opened : Bool
  requests : ℕ
  asked : List ℕ
  received : ℕ
  completed : List ℕ

/-- What happens: `send_request` is called, and its bytes are written or dropped; bytes of the answers
are read; the connection is lost, or made again, with a socket or without; or the task of
`wait_for_tcp_data` runs. -/
inductive ReconnectEvent
  | sendRequest (written : Bool)
  | receive (n : ℕ)
  | lose
  | connect (opened : Bool)
  | runReader
  deriving DecidableEq, Repr

/-- Something happens while so many places are free in the queue of the event base, on which the
coroutines that wait for the answers run too. -/
structure ReconnectStep where
  places : ℕ
  event : ReconnectEvent
  deriving DecidableEq, Repr

namespace ClientReconnect

/-- A new request. -/
def start : ClientReconnect := ⟨.start, false, false, 0, [], 0, []⟩

/-- The answers on the last connection, with the server's answer to each request. -/
def answersTo (answers : ℕ → WireResponse) (s : ClientReconnect) : List UInt8 :=
  streamOf (s.asked.map answers)

/-- An exception leaves the thread, or the buffer of the reader is overrun: what comes behind is not
followed. -/
def terminate (s : ClientReconnect) : ClientReconnect :=
  { s with client := { s.client with terminated := true } }

/-- Requests are completed, and so many other events are posted behind them.  Each of them takes a
place, and a push that is refused ends the process. -/
def complete (s : ClientReconnect) (places : ℕ) (completions : List Completion) (others : ℕ) :
    ClientReconnect × List Completion :=
  if completions.length + others ≤ places then
    ({ s with completed := s.completed ++ completions.map (·.request) }, completions)
  else
    (terminate { s with
        completed := s.completed ++ (completions.take places).map (·.request) },
      completions.take places)

/-- `send_request`. -/
def sendRequest (s : ClientReconnect) (places : ℕ) (written : Bool) :
    ClientReconnect × List Completion :=
  if s.connected = true then
    ({ s with
        requests := s.requests + 1
        client := s.client.pushFuture s.requests
        asked := if s.opened = true ∧ written = true then s.asked ++ [s.requests] else s.asked },
      [])
  else
    { s with requests := s.requests + 1 }.complete places [⟨s.requests, .createErrorResponse⟩] 0

/-- What the read of `n` bytes at most brings. -/
def nextData (answers : ℕ → WireResponse) (s : ClientReconnect) (n : ℕ) : List UInt8 :=
  ((s.answersTo answers).drop s.received).take n

/-- The event that the reader's task posts for itself: the next of the data is there already. -/
def readerPosts (s : ClientReconnect) : ℕ :=
  if s.client.reader = .waiting ∨ s.client.pendingDataQueue = [] then 0 else 1

/-- What is read fits the buffer, and its event finds a place if the reader waits for it. -/
def Fits (s : ClientReconnect) (places : ℕ) (data : List UInt8) : Prop :=
  data.length < HttpsClientRequestIO.clientBufferSize ∧
    (s.client.reader = .waiting → data ≠ [] → 0 < places)

instance (s : ClientReconnect) (places : ℕ) (data : List UInt8) : Decidable (s.Fits places data) :=
  inferInstanceAs (Decidable (_ ∧ (_ → _ → _)))

/-- **A step**, where the server answers the requests of a connection in order; a program that has
ended does nothing. -/
def step (answers : ℕ → WireResponse) (s : ClientReconnect) (now : ReconnectStep) :
    ClientReconnect × List Completion :=
  if s.client.terminated = true then (s, [])
  else
    match now.event with
    | .sendRequest written => s.sendRequest now.places written
    | .receive n =>
      if s.connected = true ∧ s.opened = true then
        let data := s.nextData answers n
        if s.Fits now.places data then
          ({ s with
              client := s.client.handleReadData data
              received := s.received + data.length }, [])
        else (s.terminate, [])
      else (s, [])
    | .lose =>
      if s.connected = true ∧ s.opened = true then
        { s with connected := false, client := s.client.onDisconnect.1 }.complete now.places
          s.client.onDisconnect.2 0
      else (s, [])
    | .connect opened =>
      (if s.connected = true then s
        else { s with connected := true, opened := opened, asked := [], received := 0 }, [])
    | .runReader =>
      { s with client := s.client.runReader.1 }.complete now.places s.client.runReader.2
        s.readerPosts

/-- A request gets the server's answer to it, on its own connection, or the error response when it
has none or has lost it; and it has not been completed before. -/
def Sound (answers : ℕ → WireResponse) (s : ClientReconnect) (now : ReconnectStep)
    (completion : Completion) : Prop :=
  completion.request ∉ s.completed ∧
    (s.connected = true ∧ completion.request ∈ s.asked ∧
        completion.response = (answers completion.request).received ∨
      (next (step answers) s now).connected = false ∧
        completion.response = .createErrorResponse)

/-- What a step completes is sound. -/
def Answered (answers : ℕ → WireResponse) (s : ClientReconnect) (now : ReconnectStep) : Prop :=
  ∀ completion ∈ (s.step answers now).2, Sound answers s now completion

/-- The answers on this connection that end in the `m` bytes behind the first `n`. -/
def answersIn (answers : ℕ → WireResponse) (s : ClientReconnect) (n m : ℕ) : ℕ :=
  (arrivedResponses (s.asked.map answers) (n + m)).length -
    (arrivedResponses (s.asked.map answers) n).length

/-- **Nothing is left of a connection when the next one is made**, which has a socket; no request is
dropped by `write`; a read fits the buffer and ends fewer answers than the queue has places; and the
queue has places for what is posted when the connection is lost or data is parsed. -/
def Careful (answers : ℕ → WireResponse) (s : ClientReconnect) (now : ReconnectStep) : Prop :=
  match now.event with
  | .sendRequest written => if s.connected = true then written = true else 0 < now.places
  | .receive n => s.connected = true → s.Fits now.places (s.nextData answers n) ∧
    s.answersIn answers s.received (s.nextData answers n).length < Coroutine.maxTaskInfo
  | .lose => s.client.responseFutures.length ≤ now.places
  | .connect opened => s.connected = false →
    opened = true ∧ s.client.responseParser = .fresh ∧ s.client.waitingData = []
  | .runReader => (if s.connected = true then
      s.answersIn answers (s.received - s.client.waitingData.length) s.client.reader.data.length
      else 0) + s.readerPosts ≤ now.places

/-- All answers have come, and were parsed. -/
def Settled (answers : ℕ → WireResponse) (s : ClientReconnect) : Prop :=
  (s.connected = true → s.received = (s.answersTo answers).length) ∧ s.client.waitingData = []

end ClientReconnect

/-! ## The answers, piece by piece -/

theorem WireResponse.length_pos (response : WireResponse) : 0 < response.bytes.length := by
  rw [WireResponse.bytes, List.length_append]
  exact Nat.add_pos_left (List.length_pos_of_ne_nil block_ne_nil) _

theorem arrivedResponses_isPrefix (responses : List WireResponse) (n : ℕ) :
    arrivedResponses responses n <+: responses.map WireResponse.received := by
  induction responses generalizing n with
  | nil => exact List.prefix_rfl
  | cons response responses ih =>
    rw [arrivedResponses]
    split
    · exact (List.prefix_cons_inj _).mpr (ih _)
    · exact List.nil_prefix

theorem length_arrivedResponses_le (responses : List WireResponse) (n : ℕ) :
    (arrivedResponses responses n).length ≤ responses.length := by
  have hle := (arrivedResponses_isPrefix responses n).length_le
  rwa [List.length_map] at hle

/-- A response that is sent later changes nothing of what has arrived. -/
theorem arrivedResponses_append {responses : List WireResponse} {n : ℕ}
    (h : n ≤ (streamOf responses).length) (response : WireResponse) :
    arrivedResponses (responses ++ [response]) n = arrivedResponses responses n := by
  induction responses generalizing n with
  | nil =>
    rw [Nat.le_zero.mp h, List.nil_append, arrivedResponses.eq_2,
      if_neg (Nat.not_le.mpr response.length_pos), arrivedResponses]
  | cons first responses ih =>
    have hlength : (streamOf (first :: responses)).length =
        first.bytes.length + (streamOf responses).length := by
      rw [streamOf, List.flatMap_cons, List.length_append]
      rfl
    rw [List.cons_append, arrivedResponses, arrivedResponses, ih (by omega)]

theorem arrivedResponses_zero (responses : List WireResponse) :
    arrivedResponses responses 0 = [] := by
  cases responses with
  | nil => rfl
  | cons response responses =>
    rw [arrivedResponses, if_neg (Nat.not_le.mpr response.length_pos)]

/-- One more byte ends one answer at most. -/
theorem length_arrivedResponses_succ (responses : List WireResponse) (n : ℕ) :
    (arrivedResponses responses (n + 1)).length ≤ (arrivedResponses responses n).length + 1 := by
  induction responses generalizing n with
  | nil => exact Nat.zero_le _
  | cons response responses ih =>
    rw [arrivedResponses, arrivedResponses]
    rcases Nat.lt_trichotomy response.bytes.length (n + 1) with hlt | heq | hgt
    · have hle : response.bytes.length ≤ n := by omega
      have hnext : n + 1 - response.bytes.length = n - response.bytes.length + 1 := by omega
      rw [if_pos hlt.le, if_pos hle, hnext, List.length_cons, List.length_cons]
      exact Nat.succ_le_succ (ih _)
    · rw [if_pos heq.le, if_neg (by omega), heq, Nat.sub_self, arrivedResponses_zero]
      exact Nat.le_refl _
    · rw [if_neg (by omega)]
      exact Nat.zero_le _

/-- Pieces that come behind the first `n` bytes, each of which ends fewer answers than the queue has
places. -/
def FewIn (responses : List WireResponse) : ℕ → List (List UInt8) → Prop
  | _, [] => True
  | n, piece :: pieces =>
    (arrivedResponses responses (n + piece.length)).length -
        (arrivedResponses responses n).length < Coroutine.maxTaskInfo ∧
      FewIn responses (n + piece.length) pieces

theorem fewIn_nil (n : ℕ) (pieces : List (List UInt8)) : FewIn [] n pieces := by
  induction pieces generalizing n with
  | nil => trivial
  | cons piece pieces ih =>
    have hroom : 0 < Coroutine.maxTaskInfo := by decide
    exact ⟨hroom, ih _⟩

theorem fewIn_concat {responses : List WireResponse} {n : ℕ} {pieces : List (List UInt8)}
    {piece : List UInt8} (h : FewIn responses n pieces)
    (hpiece : (arrivedResponses responses (n + pieces.flatten.length + piece.length)).length -
      (arrivedResponses responses (n + pieces.flatten.length)).length < Coroutine.maxTaskInfo) :
    FewIn responses n (pieces ++ [piece]) := by
  induction pieces generalizing n with
  | nil => exact ⟨hpiece, trivial⟩
  | cons first pieces ih =>
    refine ⟨h.1, ih h.2 ?_⟩
    rwa [List.flatten_cons, List.length_append, ← Nat.add_assoc] at hpiece

/-- A response that is sent later changes nothing of it. -/
theorem fewIn_append {responses : List WireResponse} {n : ℕ} {pieces : List (List UInt8)}
    (h : FewIn responses n pieces)
    (hlength : n + pieces.flatten.length ≤ (streamOf responses).length) (response : WireResponse) :
    FewIn (responses ++ [response]) n pieces := by
  induction pieces generalizing n with
  | nil => trivial
  | cons first pieces ih =>
    rw [List.flatten_cons, List.length_append] at hlength
    refine ⟨?_, ih h.2 (by omega)⟩
    rw [arrivedResponses_append (by omega), arrivedResponses_append (by omega)]
    exact h.1

namespace HttpsClientResponseParser

variable {pieces : List (List UInt8)} {responses : List WireResponse}

/-- One more piece. -/
theorem feedPieces_append {parser : HttpsClientResponseParser} {given : List HttpsClientResponse}
    (h : (parser.feedPieces pieces).1 = some given) (piece : List UInt8) :
    parser.feedPieces (pieces ++ [piece]) =
      (((parser.feedPieces pieces).2.appendData piece).parseAll.1.map (given ++ ·),
        ((parser.feedPieces pieces).2.appendData piece).parseAll.2) := by
  induction pieces generalizing parser given with
  | nil =>
    cases h
    rw [List.nil_append, feedPieces, feedPieces]
    cases hparsed : (parser.appendData piece).parseAll with
    | mk out after => cases out <;> simp [feedPieces]
  | cons first pieces ih =>
    rw [List.cons_append, feedPieces, feedPieces]
    rw [feedPieces] at h
    cases hparsed : (parser.appendData first).parseAll with
    | mk out after =>
      rw [hparsed] at h
      cases out with
      | none => cases h
      | some out =>
        obtain ⟨rest, hrest, rfl⟩ := Option.map_eq_some_iff.mp h
        dsimp only
        rw [ih hrest, Option.map_map]
        simp [Function.comp_def]

/-- **What a part of the answers gives out.** -/
theorem feedPieces_part (h : pieces.flatten <+: streamOf responses) :
    (fresh.feedPieces pieces).1 =
      some (arrivedResponses responses pieces.flatten.length) := by
  obtain ⟨rest, hrest⟩ := h
  have hcut : (pieces ++ [rest]).flatten = streamOf responses := by
    rw [List.flatten_append, List.flatten_singleton, hrest]
  have hpart := (feedPieces_stream hcut).1 pieces.length
  rwa [List.take_left] at hpart

/-- **The next piece gives out what arrives with it.** -/
theorem parseAll_part {data : List UInt8} (h : pieces.flatten ++ data <+: streamOf responses) :
    ∃ out, ((fresh.feedPieces pieces).2.appendData data).parseAll =
        (some out, (fresh.feedPieces (pieces ++ [data])).2) ∧
      arrivedResponses responses pieces.flatten.length ++ out =
        arrivedResponses responses (pieces ++ [data]).flatten.length := by
  have hflatten : (pieces ++ [data]).flatten = pieces.flatten ++ data := by
    rw [List.flatten_append, List.flatten_singleton]
  have hbefore := feedPieces_part ((List.prefix_append _ data).trans h)
  have hafter := feedPieces_part (hflatten ▸ h)
  rw [feedPieces_append hbefore] at hafter ⊢
  obtain ⟨out, hout, heq⟩ := Option.map_eq_some_iff.mp hafter
  exact ⟨out, Prod.ext hout rfl, heq⟩

end HttpsClientResponseParser

/-! ## The futures -/

namespace HttpsClientRequest

/-- The futures are set from the front. -/
theorem answer_requests (futures : List ℕ) (responses : List HttpsClientResponse) :
    (answer futures responses).2.map (·.request) ++ (answer futures responses).1 = futures := by
  induction futures generalizing responses with
  | nil => rfl
  | cons request futures ih =>
    cases responses with
    | nil => rfl
    | cons response responses => exact congrArg (request :: ·) (ih responses)

/-- **Responses in the order of the requests go to their own.** -/
theorem answer_of_isPrefix {own : ℕ → HttpsClientResponse} {futures : List ℕ}
    {responses : List HttpsClientResponse} (h : responses <+: futures.map own) :
    (answer futures responses).1 = futures.drop responses.length ∧
      ∀ completion ∈ (answer futures responses).2,
        completion.request ∈ futures ∧ completion.response = own completion.request := by
  induction futures generalizing responses with
  | nil =>
    rw [List.map_nil, List.prefix_nil] at h
    subst h
    exact ⟨rfl, fun _ hmem => absurd hmem List.not_mem_nil⟩
  | cons request futures ih =>
    cases responses with
    | nil => exact ⟨rfl, fun _ hmem => absurd hmem List.not_mem_nil⟩
    | cons response responses =>
      obtain ⟨rfl, hrest⟩ := List.cons_prefix_cons.mp h
      obtain ⟨hleft, hown⟩ := ih hrest
      refine ⟨hleft, fun completion hmem => ?_⟩
      rcases List.mem_cons.mp hmem with rfl | hmem
      · exact ⟨List.mem_cons_self, rfl⟩
      · exact ⟨List.mem_cons_of_mem _ (hown completion hmem).1, (hown completion hmem).2⟩

/-- Each of them completes a request. -/
theorem length_answer {own : ℕ → HttpsClientResponse} {futures : List ℕ}
    {responses : List HttpsClientResponse} (h : responses <+: futures.map own) :
    (answer futures responses).2.length = responses.length := by
  have hcount := congrArg List.length (answer_requests futures responses)
  rw [List.length_append, List.length_map, (answer_of_isPrefix h).1, List.length_drop] at hcount
  have hle := h.length_le
  rw [List.length_map] at hle
  omega

end HttpsClientRequest

/-! ## The data on its way, piece by piece -/

namespace HttpsClientRequest

variable {client : HttpsClientRequest}

/-- The data of the reader, and what is queued behind it. -/
def pieces (client : HttpsClientRequest) : List (List UInt8) :=
  match client.reader with
  | .ready data => data :: client.pendingDataQueue
  | .starting | .waiting => client.pendingDataQueue

theorem flatten_pieces (client : HttpsClientRequest) :
    client.pieces.flatten = client.waitingData := by
  rw [pieces, waitingData]
  cases client.reader <;> rfl

theorem pieces_waitForData (client : HttpsClientRequest) :
    client.waitForData.pieces = client.pendingDataQueue := by
  cases hpending : client.pendingDataQueue with
  | nil =>
    rw [waitForData_nil hpending, pieces]
    exact hpending
  | cons data pending =>
    rw [waitForData_cons hpending]
    rfl

theorem Queued.pieces_handleReadData (h : client.Queued) {data : List UInt8} (hdata : data ≠ []) :
    (client.handleReadData data).pieces = client.pieces ++ [data] := by
  rw [HttpsClientRequest.handleReadData, if_neg hdata]
  by_cases hreader : client.reader = .waiting
  · rw [onResponseReceived_waiting hreader]
    simp [pieces, hreader, h hreader]
  · rw [onResponseReceived_of_ne hreader, pieces, pieces]
    cases client.reader <;> rfl

end HttpsClientRequest

/-! ## The invariant -/

namespace ClientReconnect

variable {answers : ℕ → WireResponse} {s : ClientReconnect}

/-- The parser has taken a part of the answers of this connection, the rest of what has come is on
its way to the reader, and the futures that are left are those of the answers that have not come. -/
structure Taken (answers : ℕ → WireResponse) (s : ClientReconnect) (pieces : List (List UInt8)) :
    Prop where
  parser : s.client.responseParser = (fresh.feedPieces pieces).2
  bytes : pieces.flatten ++ s.client.waitingData = (s.answersTo answers).take s.received
  futures : s.connected = true → s.client.responseFutures =
    s.asked.drop (arrivedResponses (s.asked.map answers) pieces.flatten.length).length

/-- **The invariant.** -/
structure Inv (answers : ℕ → WireResponse) (s : ClientReconnect) : Prop where
  running : s.client.terminated = false
  queued : s.client.Queued
  taken : ∃ pieces, Taken answers s pieces
  received : s.received ≤ (s.answersTo answers).length
  lost : s.connected = false → s.client.responseFutures = []
  opened : s.connected = true → s.opened = true
  few : s.connected = true → FewIn (s.asked.map answers)
    (s.received - s.client.waitingData.length) s.client.pieces
  perm : (s.completed ++ s.client.responseFutures).Perm (List.range s.requests)

theorem inv_start : Inv answers start where
  running := rfl
  queued := HttpsClientRequest.queued_start
  taken := ⟨[], rfl, rfl, fun hfalse => by cases hfalse⟩
  received := Nat.le_refl 0
  lost := fun _ => rfl
  opened := fun hfalse => by cases hfalse
  few := fun hfalse => by cases hfalse
  perm := List.Perm.refl []

/-- What the parser has taken is a part of the answers. -/
theorem Taken.isPrefix {pieces : List (List UInt8)} (h : Taken answers s pieces) :
    pieces.flatten ++ s.client.waitingData <+: s.answersTo answers := by
  rw [h.bytes]
  exact List.take_prefix _ _

/-- What the parser has taken and what is on its way is all that has come. -/
theorem Taken.length_eq {pieces : List (List UInt8)} (h : Taken answers s pieces)
    (hreceived : s.received ≤ (s.answersTo answers).length) :
    pieces.flatten.length + s.client.waitingData.length = s.received := by
  rw [← List.length_append, h.bytes, List.length_take, Nat.min_eq_left hreceived]

theorem Inv.waiting_le (h : Inv answers s) : s.client.waitingData.length ≤ s.received := by
  obtain ⟨pieces, htaken⟩ := h.taken
  have hlength := htaken.length_eq h.received
  omega

/-- No request is completed twice. -/
theorem Inv.not_completed (h : Inv answers s) {request : ℕ}
    (hmem : request ∈ s.client.responseFutures) : request ∉ s.completed := by
  have hnodup := h.perm.nodup_iff.mpr List.nodup_range
  exact fun hcompleted => (List.nodup_append.mp hnodup).2.2 request hcompleted request hmem rfl

theorem Inv.lt_requests (h : Inv answers s) {request : ℕ} (hmem : request ∈ s.completed) :
    request < s.requests :=
  List.mem_range.mp (h.perm.mem_iff.mp (List.mem_append_left _ hmem))

/-! ## The steps -/

/-- **A request is sent** on a connection. -/
theorem Inv.sendConnected (h : Inv answers s) (hconnected : s.connected = true) :
    Inv answers { s with
      requests := s.requests + 1
      client := s.client.pushFuture s.requests
      asked := s.asked ++ [s.requests] } := by
  obtain ⟨pieces, htaken⟩ := h.taken
  have hstream : streamOf ((s.asked ++ [s.requests]).map answers) =
      s.answersTo answers ++ (answers s.requests).bytes := by
    rw [answersTo, List.map_append, streamOf, List.flatMap_append]
    simp [streamOf]
  have hlength : pieces.flatten.length ≤ (s.answersTo answers).length :=
    ((List.prefix_append _ _).trans htaken.isPrefix).length_le
  have hwaiting := h.waiting_le
  have hfew : FewIn ((s.asked ++ [s.requests]).map answers)
      (s.received - s.client.waitingData.length) s.client.pieces := by
    rw [List.map_append]
    refine fewIn_append (h.few hconnected) ?_ _
    rw [HttpsClientRequest.flatten_pieces, Nat.sub_add_cancel hwaiting]
    exact h.received
  refine ⟨h.running, h.queued, ⟨pieces, htaken.parser, ?_, fun _ => ?_⟩, ?_, fun hfalse => ?_,
    h.opened, fun _ => hfew, ?_⟩
  · show pieces.flatten ++ s.client.waitingData =
      (streamOf ((s.asked ++ [s.requests]).map answers)).take s.received
    rw [hstream, List.take_append_of_le_length h.received, htaken.bytes]
  · have harrived : arrivedResponses ((s.asked ++ [s.requests]).map answers)
        pieces.flatten.length = arrivedResponses (s.asked.map answers) pieces.flatten.length := by
      rw [List.map_append]
      exact arrivedResponses_append hlength _
    have hle := length_arrivedResponses_le (s.asked.map answers) pieces.flatten.length
    rw [List.length_map] at hle
    dsimp only
    rw [harrived, List.drop_append_of_le_length hle, ← htaken.futures hconnected]
    rfl
  · show s.received ≤ (streamOf ((s.asked ++ [s.requests]).map answers)).length
    rw [hstream, List.length_append]
    exact h.received.trans (Nat.le_add_right _ _)
  · rw [hconnected] at hfalse
    cases hfalse
  · show (s.completed ++ (s.client.responseFutures ++ [s.requests])).Perm
      (List.range (s.requests + 1))
    rw [← List.append_assoc, List.range_succ]
    exact h.perm.append_right _

/-- A call without a connection completes its request at once. -/
theorem Inv.sendDisconnected (h : Inv answers s) (hconnected : s.connected = false) :
    Inv answers { s with
      requests := s.requests + 1
      completed := s.completed ++ [s.requests] } := by
  refine ⟨h.running, h.queued, h.taken.imp fun _ htaken => ⟨htaken.parser, htaken.bytes,
    htaken.futures⟩, h.received, h.lost, h.opened, h.few, ?_⟩
  have hperm := h.perm
  show (s.completed ++ [s.requests] ++ s.client.responseFutures).Perm (List.range (s.requests + 1))
  rw [h.lost hconnected, List.append_nil] at hperm ⊢
  rw [List.range_succ]
  exact hperm.append_right _

/-- **Bytes of the answers are read**, which end few answers. -/
theorem Inv.receive (h : Inv answers s) {data : List UInt8}
    (hdata : data <+: (s.answersTo answers).drop s.received)
    (hfew : s.connected = true →
      s.answersIn answers s.received data.length < Coroutine.maxTaskInfo) :
    Inv answers { s with
      client := s.client.handleReadData data
      received := s.received + data.length } := by
  obtain ⟨pieces, htaken⟩ := h.taken
  have hfutures := s.client.responseFutures_handleReadData data
  have htake : (s.answersTo answers).take (s.received + data.length) =
      (s.answersTo answers).take s.received ++ data := by
    rw [List.take_add, ← List.prefix_iff_eq_take.mp hdata]
  have hparser := (s.client.responseParser_handleReadData data).trans htaken.parser
  refine ⟨(s.client.terminated_handleReadData data).trans h.running, h.queued.handleReadData data,
    ⟨pieces, hparser, ?_, fun hconnected => hfutures.trans (htaken.futures hconnected)⟩, ?_,
    fun hlost => hfutures.trans (h.lost hlost), h.opened, fun hconnected => ?_, ?_⟩
  · show pieces.flatten ++ (s.client.handleReadData data).waitingData =
      (s.answersTo answers).take (s.received + data.length)
    rw [h.queued.waitingData_handleReadData, ← List.append_assoc, htaken.bytes, htake]
  · have hle := hdata.length_le
    have hreceived := h.received
    rw [List.length_drop] at hle
    show s.received + data.length ≤ (s.answersTo answers).length
    omega
  · have hwaiting := h.waiting_le
    have hbefore := h.few hconnected
    show FewIn _ (s.received + data.length - (s.client.handleReadData data).waitingData.length)
      (s.client.handleReadData data).pieces
    rw [h.queued.waitingData_handleReadData, List.length_append, Nat.add_sub_add_right]
    by_cases hnil : data = []
    · rwa [hnil, HttpsClientRequest.handleReadData, if_pos rfl]
    · rw [h.queued.pieces_handleReadData hnil]
      refine fewIn_concat hbefore ?_
      rw [HttpsClientRequest.flatten_pieces, Nat.sub_add_cancel hwaiting]
      exact hfew hconnected
  · show (s.completed ++ (s.client.handleReadData data).responseFutures).Perm _
    rw [hfutures]
    exact h.perm

/-- The connection is lost, and what is pending fails. -/
theorem Inv.lose (h : Inv answers s) :
    Inv answers { s with
      connected := false
      client := s.client.onDisconnect.1
      completed := s.completed ++ s.client.onDisconnect.2.map (·.request) } := by
  have hrequests : s.client.onDisconnect.2.map (·.request) = s.client.responseFutures := by
    rw [HttpsClientRequest.onDisconnect, List.map_map]
    exact List.map_id _
  refine ⟨h.running, h.queued, h.taken.imp fun _ htaken => ⟨htaken.parser, htaken.bytes,
    (fun hfalse => by cases hfalse)⟩, h.received, fun _ => rfl, (fun hfalse => by cases hfalse),
    (fun hfalse => by cases hfalse), ?_⟩
  show (s.completed ++ _ ++ []).Perm _
  rw [List.append_nil, hrequests]
  exact h.perm

/-- **A connection is made, with nothing left of the one before.** -/
theorem Inv.connect (h : Inv answers s) (hconnected : s.connected = false)
    (hparser : s.client.responseParser = .fresh) (hdata : s.client.waitingData = []) :
    Inv answers { s with connected := true, opened := true, asked := [], received := 0 } := by
  exact ⟨h.running, h.queued, ⟨[], hparser, hdata, fun _ => h.lost hconnected⟩, Nat.zero_le _,
    (fun hfalse => by cases hfalse), fun _ => rfl, fun _ => fewIn_nil _ _, h.perm⟩

/-- The reader waits for data, and has taken none. -/
theorem Inv.starting (h : Inv answers s) (hreader : s.client.reader = .starting) :
    Inv answers { s with client := s.client.waitForData } := by
  obtain ⟨pieces, htaken⟩ := h.taken
  have hframe := s.client.waitForData_frame
  have hdata : s.client.waitForData.waitingData = s.client.waitingData := by
    rw [s.client.waitingData_waitForData, HttpsClientRequest.waitingData, hreader]
    rfl
  refine ⟨?_, s.client.queued_waitForData, ⟨pieces, ?_, ?_, fun hconnected => ?_⟩, h.received,
    fun hlost => ?_, h.opened, fun hconnected => ?_, ?_⟩
  · exact (congrArg (·.terminated) hframe).trans h.running
  · exact (congrArg (·.responseParser) hframe).trans htaken.parser
  · exact (congrArg (pieces.flatten ++ ·) hdata).trans htaken.bytes
  · exact (congrArg (·.responseFutures) hframe).trans (htaken.futures hconnected)
  · exact (congrArg (·.responseFutures) hframe).trans (h.lost hlost)
  · have hpieces : s.client.waitForData.pieces = s.client.pieces := by
      rw [s.client.pieces_waitForData, HttpsClientRequest.pieces, hreader]
    show FewIn _ (s.received - s.client.waitForData.waitingData.length) s.client.waitForData.pieces
    rw [hdata, hpieces]
    exact h.few hconnected
  · show (s.completed ++ s.client.waitForData.responseFutures).Perm _
    rw [hframe]
    exact h.perm

/-- **What the reader takes gives its answers to the futures in front.** -/
theorem Inv.taken_data (h : Inv answers s) {data : List UInt8}
    (hreader : s.client.reader = .ready data) : ∃ parser futures completions,
    s.client.runReader =
      ({ s.client with responseParser := parser, responseFutures := futures }.waitForData,
        completions) ∧
    completions.map (·.request) ++ futures = s.client.responseFutures ∧
    (∃ pieces, parser = (fresh.feedPieces pieces).2 ∧
      pieces.flatten ++ s.client.pendingDataQueue.flatten =
        (s.answersTo answers).take s.received ∧
      (s.connected = true → futures =
        s.asked.drop (arrivedResponses (s.asked.map answers) pieces.flatten.length).length)) ∧
    (s.connected = true → completions.length =
      s.answersIn answers (s.received - s.client.waitingData.length) data.length) ∧
    ∀ completion ∈ completions, s.connected = true ∧ completion.request ∈ s.asked ∧
      completion.response = (answers completion.request).received := by
  obtain ⟨pieces, htaken⟩ := h.taken
  have htotal := htaken.length_eq h.received
  have hbytes := htaken.bytes
  rw [HttpsClientRequest.waitingData, hreader, ← List.append_assoc] at hbytes
  have hpart : pieces.flatten ++ data <+: streamOf (s.asked.map answers) :=
    (List.prefix_append _ _).trans (hbytes ▸ List.take_prefix _ _)
  obtain ⟨out, hparsed, harrived⟩ := parseAll_part hpart
  have hrequests := HttpsClientRequest.answer_requests s.client.responseFutures out
  have hrun : s.client.runReader = ({ s.client with
      responseParser := (fresh.feedPieces (pieces ++ [data])).2
      responseFutures := (HttpsClientRequest.answer s.client.responseFutures out).1 }.waitForData,
      (HttpsClientRequest.answer s.client.responseFutures out).2) := by
    rw [HttpsClientRequest.runReader, hreader]
    dsimp only
    rw [HttpsClientRequest.receiveData, htaken.parser, hparsed]
  have hflatten : (pieces ++ [data]).flatten = pieces.flatten ++ data := by
    rw [List.flatten_append, List.flatten_singleton]
  -- the answers that come are those of the requests in front
  have hown : s.connected = true →
      out <+: s.client.responseFutures.map fun request => (answers request).received := by
    intro hconnected
    have hall := arrivedResponses_isPrefix (s.asked.map answers) (pieces ++ [data]).flatten.length
    rw [← harrived, List.map_map] at hall
    have hdrop := hall.drop (arrivedResponses (s.asked.map answers) pieces.flatten.length).length
    rw [List.drop_left, ← List.map_drop, ← htaken.futures hconnected] at hdrop
    exact hdrop
  have hleft : s.connected = true → (HttpsClientRequest.answer s.client.responseFutures out).1 =
      s.asked.drop (arrivedResponses (s.asked.map answers)
        (pieces ++ [data]).flatten.length).length := by
    intro hconnected
    rw [(HttpsClientRequest.answer_of_isPrefix (hown hconnected)).1, htaken.futures hconnected,
      List.drop_drop, ← harrived, List.length_append]
  refine ⟨_, _, _, hrun, hrequests, ⟨pieces ++ [data], rfl, ?_, hleft⟩, fun hconnected => ?_, ?_⟩
  · rw [hflatten]
    exact hbytes
  · rw [HttpsClientRequest.length_answer (hown hconnected), answersIn, ← htotal,
      Nat.add_sub_cancel, ← List.length_append, ← hflatten, ← harrived, List.length_append,
      Nat.add_sub_cancel_left]
  · intro completion hmem
    cases hconnected : s.connected with
    | false =>
      rw [h.lost hconnected] at hmem
      exact absurd hmem List.not_mem_nil
    | true =>
      obtain ⟨hfuture, hresponse⟩ :=
        (HttpsClientRequest.answer_of_isPrefix (hown hconnected)).2 completion hmem
      rw [htaken.futures hconnected] at hfuture
      exact ⟨rfl, List.mem_of_mem_drop hfuture, hresponse⟩

/-- **The reader's task keeps the invariant.** -/
theorem Inv.runReader (h : Inv answers s) :
    Inv answers { s with
      client := s.client.runReader.1
      completed := s.completed ++ s.client.runReader.2.map (·.request) } := by
  cases hreader : s.client.reader with
  | starting =>
    have hrun : s.client.runReader = (s.client.waitForData, []) := by
      rw [HttpsClientRequest.runReader, hreader]
    rw [hrun, List.map_nil, List.append_nil]
    exact h.starting hreader
  | waiting =>
    have hrun : s.client.runReader = (s.client, []) := by
      rw [HttpsClientRequest.runReader, hreader]
    rw [hrun, List.map_nil, List.append_nil]
    exact h
  | ready data =>
    obtain ⟨parser, futures, completions, hrun, hrequests, htaken, -⟩ := h.taken_data hreader
    obtain ⟨pieces, hparser, hbytes, hfutures⟩ := htaken
    have hwaiting := h.waiting_le
    have hframe := HttpsClientRequest.waitForData_frame
      { s.client with responseParser := parser, responseFutures := futures }
    rw [hrun]
    refine ⟨?_, HttpsClientRequest.queued_waitForData _, ⟨pieces, ?_, ?_, fun hconnected => ?_⟩,
      h.received, fun hlost => ?_, h.opened, fun hconnected => ?_, ?_⟩
    · exact (congrArg (·.terminated) hframe).trans h.running
    · exact (congrArg (·.responseParser) hframe).trans hparser
    · exact (congrArg (pieces.flatten ++ ·)
        (HttpsClientRequest.waitingData_waitForData _)).trans hbytes
    · exact (congrArg (·.responseFutures) hframe).trans (hfutures hconnected)
    · rw [h.lost hlost] at hrequests
      exact (congrArg (·.responseFutures) hframe).trans (List.append_eq_nil_iff.mp hrequests).2
    · have hfew := h.few hconnected
      rw [HttpsClientRequest.pieces, hreader] at hfew
      have hdata : s.client.waitingData.length =
          data.length + s.client.pendingDataQueue.flatten.length := by
        rw [HttpsClientRequest.waitingData, hreader, List.length_append]
        rfl
      rw [hdata] at hfew hwaiting
      have hposition : s.received - (data.length + s.client.pendingDataQueue.flatten.length) +
          data.length = s.received - s.client.pendingDataQueue.flatten.length := by omega
      dsimp only
      rw [HttpsClientRequest.waitingData_waitForData, HttpsClientRequest.pieces_waitForData]
      exact hposition ▸ hfew.2
    · show (s.completed ++ completions.map (·.request) ++
        (HttpsClientRequest.waitForData _).responseFutures).Perm _
      rw [hframe, List.append_assoc, hrequests]
      exact h.perm

/-- **The queue has places for what is completed.** -/
theorem complete_of_le {places others : ℕ} {completions : List Completion}
    (h : completions.length + others ≤ places) (s : ClientReconnect) :
    s.complete places completions others =
      ({ s with completed := s.completed ++ completions.map (·.request) }, completions) := if_pos h

/-- What is completed is some of it in any case. -/
theorem mem_complete {places others : ℕ} {completions : List Completion} {completion : Completion}
    (h : completion ∈ (s.complete places completions others).2) : completion ∈ completions := by
  rw [complete] at h
  split at h
  · exact h
  · exact List.mem_of_mem_take h

theorem connected_complete (s : ClientReconnect) (places : ℕ) (completions : List Completion)
    (others : ℕ) : (s.complete places completions others).1.connected = s.connected := by
  rw [complete]
  split <;> rfl

/-- **The reader's task posts no more than the places that are there.** -/
theorem Inv.reader_fits (h : Inv answers s) {places : ℕ}
    (hcareful : s.Careful answers ⟨places, .runReader⟩) :
    s.client.runReader.2.length + s.readerPosts ≤ places := by
  have hle : (if s.connected = true then s.answersIn answers
      (s.received - s.client.waitingData.length) s.client.reader.data.length else 0) +
        s.readerPosts ≤ places := hcareful
  cases hreader : s.client.reader with
  | starting | waiting =>
    have hrun : s.client.runReader.2 = [] := by
      rw [HttpsClientRequest.runReader, hreader]
    rw [hrun, List.length_nil, Nat.zero_add]
    exact (Nat.le_add_left _ _).trans hle
  | ready data =>
    obtain ⟨parser, futures, completions, hrun, hrequests, -, hlength, hown⟩ := h.taken_data hreader
    rw [hreader] at hle
    rw [hrun]
    cases hconnected : s.connected with
    | true =>
      rw [if_pos hconnected] at hle
      rw [hlength hconnected]
      exact hle
    | false =>
      rw [h.lost hconnected] at hrequests
      have hnil := List.map_eq_nil_iff.mp (List.append_eq_nil_iff.mp hrequests).1
      rw [if_neg (by rw [hconnected]; exact Bool.false_ne_true)] at hle
      rw [hnil]
      exact hle

/-- **A careful step keeps the invariant.** -/
theorem Inv.step (h : Inv answers s) {now : ReconnectStep} (hcareful : s.Careful answers now) :
    Inv answers (next (ClientReconnect.step answers) s now) := by
  have hrunning : ¬ s.client.terminated = true := by simp [h.running]
  obtain ⟨places, event⟩ := now
  rw [next, ClientReconnect.step.eq_def, if_neg hrunning]
  cases event with
  | sendRequest written =>
    dsimp only [Careful] at hcareful ⊢
    rw [sendRequest]
    split
    case isTrue hconnected =>
      rw [if_pos hconnected] at hcareful
      rw [hcareful, if_pos ⟨h.opened hconnected, rfl⟩]
      exact h.sendConnected hconnected
    case isFalse hlost =>
      rw [if_neg hlost] at hcareful
      rw [complete_of_le hcareful]
      exact h.sendDisconnected (Bool.eq_false_of_not_eq_true hlost)
  | receive n =>
    dsimp only [Careful] at hcareful ⊢
    split
    case isTrue hconnected =>
      obtain ⟨hfits, hfew⟩ := hcareful hconnected.1
      rw [if_pos hfits]
      exact h.receive (List.take_prefix _ _) fun _ => hfew
    case isFalse => exact h
  | lose =>
    dsimp only [Careful] at hcareful ⊢
    split
    · rw [complete_of_le (by rwa [HttpsClientRequest.onDisconnect, List.length_map, Nat.add_zero])]
      exact h.lose
    · exact h
  | connect opened =>
    dsimp only [Careful] at hcareful ⊢
    split
    case isTrue => exact h
    case isFalse hlost =>
      have hlost := Bool.eq_false_of_not_eq_true hlost
      obtain ⟨rfl, hparser, hdata⟩ := hcareful hlost
      exact h.connect hlost hparser hdata
  | runReader =>
    dsimp only
    rw [complete_of_le (h.reader_fits hcareful)]
    exact h.runReader

/-- The reader's task completes requests with their own answers. -/
theorem Inv.sound_runReader (h : Inv answers s) {completion : Completion}
    (hmem : completion ∈ s.client.runReader.2) :
    completion.request ∉ s.completed ∧ s.connected = true ∧ completion.request ∈ s.asked ∧
      completion.response = (answers completion.request).received := by
  cases hreader : s.client.reader with
  | starting | waiting =>
    rw [HttpsClientRequest.runReader, hreader] at hmem
    cases hmem
  | ready data =>
    obtain ⟨parser, futures, completions, hrun, hrequests, -, -, hown⟩ := h.taken_data hreader
    rw [hrun] at hmem
    refine ⟨h.not_completed ?_, hown completion hmem⟩
    rw [← hrequests]
    exact List.mem_append_left _ (List.mem_map_of_mem hmem)

/-- **A step completes a request with its own answer**, or with the error response when it has no
connection. -/
theorem Inv.answered (h : Inv answers s) (now : ReconnectStep) : Answered answers s now := by
  have hrunning : ¬ s.client.terminated = true := by simp [h.running]
  obtain ⟨places, event⟩ := now
  intro completion hmem
  rw [Sound, next]
  rw [ClientReconnect.step.eq_def, if_neg hrunning] at hmem ⊢
  cases event with
  | sendRequest written =>
    dsimp only at hmem ⊢
    rw [sendRequest] at hmem ⊢
    split at hmem
    case isTrue => cases hmem
    case isFalse hlost =>
      obtain rfl := List.mem_singleton.mp (mem_complete hmem)
      rw [if_neg hlost, connected_complete]
      exact ⟨fun hcompleted => Nat.lt_irrefl _ (h.lt_requests hcompleted),
        .inr ⟨Bool.eq_false_of_not_eq_true hlost, rfl⟩⟩
  | receive n =>
    dsimp only at hmem
    split_ifs at hmem <;> cases hmem
  | lose =>
    dsimp only at hmem ⊢
    split at hmem
    case isTrue hconnected =>
      obtain ⟨request, hrequest, rfl⟩ := List.mem_map.mp (mem_complete hmem)
      rw [if_pos hconnected, connected_complete]
      exact ⟨h.not_completed hrequest, .inr ⟨rfl, rfl⟩⟩
    case isFalse => cases hmem
  | connect opened => cases hmem
  | runReader =>
    obtain ⟨hnot, hown⟩ := h.sound_runReader (mem_complete hmem)
    exact ⟨hnot, .inl hown⟩

/-! ## Whole runs -/

/-- The reader's task, with an empty queue. -/
def readerTask : ReconnectStep := ⟨Coroutine.maxTaskInfo, .runReader⟩

/-- A byte is read, with an empty queue. -/
def readByte : ReconnectStep := ⟨Coroutine.maxTaskInfo, .receive 1⟩

/-- **An empty queue has places for the reader's task.** -/
theorem Inv.careful_readerTask (h : Inv answers s) : s.Careful answers readerTask := by
  have hposts : s.readerPosts ≤ 1 := by
    rw [readerPosts]
    split <;> omega
  have hfew : (if s.connected = true then s.answersIn answers
      (s.received - s.client.waitingData.length) s.client.reader.data.length else 0) <
        Coroutine.maxTaskInfo := by
    split
    case isFalse => decide
    case isTrue hconnected =>
      have hpieces := h.few hconnected
      cases hreader : s.client.reader with
      | ready data =>
        rw [HttpsClientRequest.pieces, hreader] at hpieces
        exact hpieces.1
      | starting | waiting =>
        rw [answersIn, ReaderPoint.data, List.length_nil, Nat.add_zero, Nat.sub_self]
        decide
  exact (Nat.add_le_add_left hposts _).trans hfew

theorem careful_readByte (s : ClientReconnect) : s.Careful answers readByte := by
  have hlength : (s.nextData answers 1).length ≤ 1 := List.length_take_le _ _
  intro _
  refine ⟨⟨Nat.lt_of_le_of_lt hlength (by decide), fun _ _ => by decide⟩, ?_⟩
  have hone : s.answersIn answers s.received (s.nextData answers 1).length ≤ 1 := by
    rw [answersIn]
    rcases Nat.le_one_iff_eq_zero_or_eq_one.mp hlength with hzero | hone
    · rw [hzero, Nat.add_zero, Nat.sub_self]
      exact Nat.zero_le _
    · have hsucc := length_arrivedResponses_succ (s.asked.map answers) s.received
      rw [hone]
      omega
  exact Nat.lt_of_le_of_lt hone (by decide)

theorem Inv.next_readerTask (h : Inv answers s) :
    next (ClientReconnect.step answers) s readerTask = { s with
      client := s.client.runReader.1
      completed := s.completed ++ s.client.runReader.2.map (·.request) } := by
  have hrunning : ¬ s.client.terminated = true := by simp [h.running]
  rw [next, ClientReconnect.step.eq_def, if_neg hrunning, readerTask]
  dsimp only
  rw [complete_of_le (h.reader_fits h.careful_readerTask)]

theorem Inv.next_readByte (h : Inv answers s) (hconnected : s.connected = true) :
    next (ClientReconnect.step answers) s readByte = { s with
      client := s.client.handleReadData (s.nextData answers 1)
      received := s.received + (s.nextData answers 1).length } := by
  have hrunning : ¬ s.client.terminated = true := by simp [h.running]
  have hcareful : s.Careful answers readByte := careful_readByte s
  have hfits : s.Fits Coroutine.maxTaskInfo (s.nextData answers 1) := (hcareful hconnected).1
  rw [next, ClientReconnect.step.eq_def, if_neg hrunning, readByte]
  dsimp only
  rw [if_pos ⟨hconnected, h.opened hconnected⟩, if_pos hfits]

/-- A reader that does not wait has a task less after its task. -/
theorem Inv.tasks_runReader (h : Inv answers s) (hreader : s.client.reader ≠ .waiting) :
    s.client.runReader.1.tasks < s.client.tasks := by
  have hpending : s.client.runReader.1.tasks = s.client.pendingDataQueue.length := by
    cases hpoint : s.client.reader with
    | waiting => exact absurd hpoint hreader
    | starting =>
      rw [HttpsClientRequest.runReader, hpoint]
      exact s.client.tasks_waitForData
    | ready data =>
      obtain ⟨parser, futures, completions, hrun, -⟩ := h.taken_data hpoint
      rw [hrun]
      exact HttpsClientRequest.tasks_waitForData _
  rw [hpending, HttpsClientRequest.tasks, if_neg hreader]
  exact Nat.lt_succ_self _

/-- **The reader comes to wait**, with nothing left for it. -/
theorem Inv.exists_drained (h : Inv answers s) : ∃ steps : List ReconnectStep,
    (∀ now ∈ steps, now = readerTask) ∧
      (exec (next (ClientReconnect.step answers)) s steps).client.waitingData = [] ∧
      (exec (next (ClientReconnect.step answers)) s steps).received = s.received ∧
      (exec (next (ClientReconnect.step answers)) s steps).asked = s.asked ∧
      (exec (next (ClientReconnect.step answers)) s steps).connected = s.connected := by
  induction hn : s.client.tasks using Nat.strong_induction_on generalizing s with
  | _ n ih =>
    by_cases hreader : s.client.reader = .waiting
    · refine ⟨[], fun _ hmem => absurd hmem List.not_mem_nil, ?_, rfl, rfl, rfl⟩
      rw [exec_nil, HttpsClientRequest.waitingData, hreader, h.queued hreader]
      rfl
    · have hnext := h.next_readerTask
      have hlt := h.tasks_runReader hreader
      have hinv := h.step h.careful_readerTask
      rw [hn] at hlt
      obtain ⟨steps, hsteps, hdata, hreceived, hasked, hconnected⟩ :=
        ih _ (by rw [hnext]; exact hlt) hinv rfl
      refine ⟨readerTask :: steps, List.forall_mem_cons.mpr ⟨rfl, hsteps⟩, hdata, ?_, ?_, ?_⟩
      · exact hreceived.trans (congrArg (·.received) hnext)
      · exact hasked.trans (congrArg (·.asked) hnext)
      · exact hconnected.trans (congrArg (·.connected) hnext)

/-- **Every run can go on until all answers have come and were parsed**, with no connection lost: the
rest is read byte by byte. -/
theorem Inv.exists_settled (h : Inv answers s) : ∃ steps : List ReconnectStep,
    (∀ now ∈ steps, now = readerTask ∨ now = readByte) ∧
      Settled answers (exec (next (ClientReconnect.step answers)) s steps) := by
  induction hn : (s.answersTo answers).length - s.received generalizing s with
  | zero =>
    obtain ⟨steps, hsteps, hdata, hreceived, hasked, -⟩ := h.exists_drained
    refine ⟨steps, fun now hmem => .inl (hsteps now hmem), fun _ => ?_, hdata⟩
    have hle := h.received
    rw [hreceived, answersTo, hasked, ← answersTo]
    omega
  | succ n ih =>
    cases hconnected : s.connected with
    | false =>
      obtain ⟨steps, hsteps, hdata, -, -, hsame⟩ := h.exists_drained
      refine ⟨steps, fun now hmem => .inl (hsteps now hmem), fun htrue => ?_, hdata⟩
      rw [hsame, hconnected] at htrue
      cases htrue
    | true =>
      have hnext := h.next_readByte hconnected
      have hlength : (s.nextData answers 1).length = 1 := by
        rw [nextData, List.length_take, List.length_drop]
        omega
      obtain ⟨steps, hsteps, hsettled⟩ := ih (h.step (careful_readByte s)) (by
        rw [hnext]
        show (s.answersTo answers).length - (s.received + (s.nextData answers 1).length) = n
        omega)
      exact ⟨readByte :: steps, List.forall_mem_cons.mpr ⟨.inr rfl, hsteps⟩, hsettled⟩

/-- Two requests are answered, in two reads that cut a response; the third one is pending when the
connection is lost, the fourth one has none, and the fifth is answered on the next connection. -/
def twoConnectionsRun : List ReconnectStep :=
  [.connect true, .runReader, .sendRequest true, .sendRequest true, .receive 30, .runReader,
    .receive 60, .runReader, .sendRequest true, .lose, .sendRequest true, .connect true,
    .sendRequest true, .receive 100, .runReader].map (⟨2, ·⟩)

end ClientReconnect

end TradingEngine
