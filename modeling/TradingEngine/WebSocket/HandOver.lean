import TradingEngine.Http.ResponseStream
import TradingEngine.Machinery.Run
import TradingEngine.WebSocket.RoundTrip
import TradingEngine.WebSocket.Upgrade

/-!
# WebSocket/HandOver — the frames behind the response to the upgrade

What the request's reader has taken when the session is made is lost: the leftover data is logged,
and a future of the reader that is still registered takes the next read with it.  So every text
frame is delivered when no byte behind the response is read before the session waits for data, and
no read is longer than the reader's buffer.
-/

namespace TradingEngine

open WebSocket Incremental

/-- What a server sends when it switches protocols: a response without a body, and complete frames,
no text frame behind a close frame. -/
structure SwitchedServer where
  head : WireHead
  frames : List FrameArgs
  builts : List (List UInt8)
  code_eq : head.code = Ascii.text "101"
  not_chunked : head.isChunked = false
  no_length : head.contentLength = 0
  built : List.Forall₂ (fun args built => buildFrame args = .ok built) frames builts
  quiet : ∀ args ∈ frames.dropWhile (fun args => args.opcode ≠ .close), args.opcode ≠ .text

namespace SwitchedServer

variable (server : SwitchedServer)

/-- The frames as bytes. -/
def frameBytes : List UInt8 := server.builts.flatten

def bytes : List UInt8 := server.head.bytes ++ server.frameBytes

/-- The texts that are sent. -/
def texts : List (List UInt8) :=
  server.frames.filterMap fun args => if args.opcode = .text then some args.payload else none

/-- A read fits the buffer, and before the session has waited for data it leaves the frames in
flight. -/
def InTime (u : Upgrade) : UpgradeEvent → Prop
  | .socketRead n =>
    (u.inFlight.take n).length < HttpsClientRequestIO.clientBufferSize ∧
      (u.client.point.hasWaited = false → server.frameBytes.length ≤ (u.inFlight.drop n).length)
  | _ => True

instance (u : Upgrade) (event : UpgradeEvent) : Decidable (server.InTime u event) :=
  match event with
  | .socketRead _ => inferInstanceAs (Decidable (_ ∧ (_ → _)))
  | .runTask => .isTrue trivial
  | .callbackDone => .isTrue trivial

/-! ## What the session's loop does with the frames -/

/-- What the loop over some frames calls. -/
def delivered (frames : List Frame) : List (List UInt8) :=
  messages (loopFrames clientOnFrame frames).1

/-- A frame that is no close frame goes on, and gives its text to the callback. -/
theorem clientOnFrame_frame {args : FrameArgs} {built : List UInt8}
    (h : buildFrame args = .ok built) (hclose : args.opcode ≠ .close) :
    ∃ events, clientOnFrame args.frame = .goOn events ∧
      messages events = (if args.opcode = .text then some args.payload else none).toList := by
  have hlength : args.opcode = .ping → ¬ 125 < args.payload.length := by
    intro hping hlong
    rw [buildFrame] at h
    split_ifs at h with _ hlength
    exact hlength ⟨by rw [hping]; rfl, hlong⟩
  obtain ⟨opcode, payload, fin, mask, key⟩ := args
  cases opcode with
  | text => exact ⟨[.onMessage payload], rfl, rfl⟩
  | ping => exact ⟨[.write .pong payload], if_neg (hlength rfl), rfl⟩
  | close => exact absurd rfl hclose
  | continuation => exact ⟨[], rfl, rfl⟩
  | binary => exact ⟨[], rfl, rfl⟩
  | pong => exact ⟨[], rfl, rfl⟩

/-- **Every text is delivered** by a loop over the frames, and none of them throws. -/
theorem delivered_frames {argss : List FrameArgs} {builts : List (List UInt8)}
    (hbuilt : List.Forall₂ (fun args built => buildFrame args = .ok built) argss builts)
    (hquiet : ∀ args ∈ argss.dropWhile (fun args => args.opcode ≠ .close), args.opcode ≠ .text) :
    delivered (argss.map FrameArgs.frame) =
        argss.filterMap (fun args => if args.opcode = .text then some args.payload else none) ∧
      (loopFrames clientOnFrame (argss.map FrameArgs.frame)).2 ≠ .terminated := by
  induction hbuilt with
  | nil => exact ⟨rfl, LoopState.noConfusion⟩
  | @cons args built argss builts hbuild _ ih =>
    by_cases hclose : args.opcode = .close
    · -- the loop ends, and no text is sent any more
      have hstop : clientOnFrame args.frame = .stop [.write .close []] := by
        rw [clientOnFrame, FrameArgs.frame, hclose]
        rfl
      rw [List.dropWhile_cons_of_neg (by simp [hclose])] at hquiet
      have hnone : (args :: argss).filterMap
          (fun args => if args.opcode = .text then some args.payload else none) = [] := by
        rw [List.filterMap_eq_nil_iff]
        exact fun args' hmem => if_neg (hquiet args' hmem)
      rw [hnone, delivered, List.map_cons, loopFrames, hstop]
      exact ⟨rfl, LoopState.noConfusion⟩
    · obtain ⟨events, hgoOn, hevents⟩ := clientOnFrame_frame hbuild hclose
      rw [List.dropWhile_cons_of_pos (by simp [hclose])] at hquiet
      obtain ⟨hdelivered, hstate⟩ := ih hquiet
      rw [delivered] at hdelivered ⊢
      rw [List.map_cons, loopFrames, hgoOn]
      refine ⟨?_, hstate⟩
      rw [messages_append, hdelivered, hevents, List.filterMap_cons]
      split_ifs <;> rfl

/-! ## Where a run stands -/

/-- The client while the head is read. -/
def reading (queue : List TaskInfoEvent) (connection : TCPConnection Coroutine)
    (data : Coroutine → List UInt8) (buffer : List UInt8) : HttpsClientWebsocket :=
  { HttpsClientWebsocket.start with
    taskEventQueue := queue
    requestWritten := true
    tcpConnection := connection
    data := data
    responseParser := ⟨buffer, .reset⟩
    responseFutures := [.sendRequest] }

/-- The client while the response goes up to `connect`; the request's reader is still registered. -/
def answered (event : TaskInfoEvent) (data : Coroutine → List UInt8) (forceDestroy : Bool)
    (point : SessionPoint) : HttpsClientWebsocket :=
  { HttpsClientWebsocket.start with
    taskEventQueue := [event]
    requestWritten := true
    tcpConnection := ⟨some .requestWaitForTcpData, []⟩
    data := data
    response := server.head.response [] true
    forceDestroy := forceDestroy
    point := point }

/-- The events that may still come for the reader that is not resumed any more. -/
def Stale (queue : List TaskInfoEvent) : Prop :=
  queue = [] ∨ queue = [.setSuspendValue .requestWaitForTcpData]

/-- The session's loop runs: `left` frames are to be gone over, and `todo` frames to be parsed. -/
structure Serving (u : Upgrade) (left : List Frame) (todo : List (List UInt8 × List Frame)) :
    Prop where
  written : u.client.requestWritten = true
  destroyed : u.client.forceDestroy = true
  running : u.client.terminated = false
  path : frameReader.Path false todo false
  texts : messages u.client.events ++ delivered (left ++ Reader.outs todo) = server.texts
  goesOn : (loopFrames clientOnFrame (left ++ Reader.outs todo)).2 ≠ .terminated

/-- The work that is left: each step that does something makes it smaller. -/
def work (u : Upgrade) (pending : List (List UInt8)) (queue : ℕ) (frames : List Frame) : ℕ :=
  3 * u.inFlight.length + 2 * pending.length + queue + 3 * frames.length

/-- **Where a run stands**, and how much work is left. -/
inductive Phase : ℕ → Upgrade → Prop
  | opening {k : ℕ} (hk : k ≤ 4) :
    Phase (3 * server.bytes.length + 3 * server.frames.length + (20 - k))
      ⟨HttpsClientWebsocket.runTask^[k] .start, server.bytes⟩
  | awaitingHead {data : Coroutine → List UInt8} {buffer inFlight : List UInt8}
    (hbytes : buffer ++ inFlight = server.bytes)
    (hlt : buffer.length < server.head.bytes.length) :
    Phase (3 * inFlight.length + 3 * server.frames.length + 12)
      ⟨reading [] ⟨some .requestWaitForTcpData, []⟩ data buffer, inFlight⟩
  | readingHead {data : Coroutine → List UInt8} {buffer inFlight : List UInt8}
    {pending : List (List UInt8)}
    (hbytes : buffer ++ data .requestWaitForTcpData ++ (pending.flatten ++ inFlight) = server.bytes)
    (hle : server.frameBytes.length ≤ inFlight.length) (hne : ∀ d ∈ pending, d ≠ []) :
    Phase (3 * inFlight.length + 2 * pending.length + 3 * server.frames.length + 13)
      ⟨reading [.setSuspendValue .requestWaitForTcpData] ⟨none, pending⟩ data buffer, inFlight⟩
  | answering {data : Coroutine → List UInt8} {coroutine : Coroutine} {k : ℕ}
    (hmem : (coroutine, k) ∈ [(Coroutine.sendRequest, 8), (.get, 7),
      (.sendSwitchProtocolRequest, 6), (.connect, 5)]) :
    Phase (3 * server.frameBytes.length + 3 * server.frames.length + k)
      ⟨server.answered (.setSuspendValue coroutine) data false .notConstructed, server.frameBytes⟩
  | constructed {data : Coroutine → List UInt8} :
    Phase (3 * server.frameBytes.length + 3 * server.frames.length + 4)
      ⟨server.answered (.run .sessionWaitForTcpData) data true .constructed, server.frameBytes⟩
  | waiting {u : Upgrade} {todo : List (List UInt8 × List Frame)}
    (h : server.Serving u [] todo) (hpoint : u.client.point = .waitingForData)
    (hconnection : u.client.tcpConnection = ⟨some .sessionWaitForTcpData, []⟩)
    (hqueue : Stale u.client.taskEventQueue)
    (hbytes : u.client.frameParser.remaining ++ u.inFlight = Reader.bytes todo)
    (hstuck : Reader.Stuck todo u.client.frameParser.remaining.length) :
    Phase (work u [] u.client.taskEventQueue.length (Reader.outs todo)) u
  | reached {u : Upgrade} {todo : List (List UInt8 × List Frame)} {pending : List (List UInt8)}
    {stale : List TaskInfoEvent} (h : server.Serving u [] todo)
    (hpoint : u.client.point = .waitingForData)
    (hconnection : u.client.tcpConnection = ⟨none, pending⟩)
    (hstale : Stale stale)
    (hqueue : u.client.taskEventQueue = stale ++ [.setSuspendValue .sessionWaitForTcpData])
    (hbytes : u.client.frameParser.remaining ++
      (u.client.data .sessionWaitForTcpData ++ (pending.flatten ++ u.inFlight)) =
        Reader.bytes todo) :
    Phase (work u pending u.client.taskEventQueue.length (Reader.outs todo)) u
  | inCallback {u : Upgrade} {left : List Frame} {todo : List (List UInt8 × List Frame)}
    {pending : List (List UInt8)} (h : server.Serving u left todo)
    (hpoint : u.client.point = .inCallback left)
    (hconnection : u.client.tcpConnection = ⟨none, pending⟩)
    (hqueue : u.client.taskEventQueue = [])
    (hbytes : u.client.frameParser.remaining ++ (pending.flatten ++ u.inFlight) = Reader.bytes todo)
    (hstuck : Reader.Stuck todo u.client.frameParser.remaining.length) :
    Phase (work u pending 2 (left ++ Reader.outs todo)) u
  | callbackDone {u : Upgrade} {left : List Frame} {todo : List (List UInt8 × List Frame)}
    {pending : List (List UInt8)} (h : server.Serving u left todo)
    (hpoint : u.client.point = .callbackDone left)
    (hconnection : u.client.tcpConnection = ⟨none, pending⟩)
    (hqueue : u.client.taskEventQueue = [.setSuspendValue .sessionWaitForTcpData])
    (hbytes : u.client.frameParser.remaining ++ (pending.flatten ++ u.inFlight) = Reader.bytes todo)
    (hstuck : Reader.Stuck todo u.client.frameParser.remaining.length) :
    Phase (work u pending 1 (left ++ Reader.outs todo)) u
  | finished {u : Upgrade} {pending : List (List UInt8)} (hwritten : u.client.requestWritten = true)
    (hrunning : u.client.terminated = false) (hpoint : u.client.point = .finished)
    (hconnection : u.client.tcpConnection = ⟨none, pending⟩) (hqueue : u.client.taskEventQueue = [])
    (htexts : messages u.client.events = server.texts) :
    Phase (work u pending 0 []) u

/-! ## What a step leaves alone -/

variable {server}

/-- **The frame rule**: what the session is about to do depends on the flags and on what has been
called. -/
theorem Serving.frame {u u' : Upgrade} {left : List Frame} {todo : List (List UInt8 × List Frame)}
    (h : server.Serving u left todo) (hwritten : u'.client.requestWritten = u.client.requestWritten)
    (hdestroyed : u'.client.forceDestroy = u.client.forceDestroy)
    (hrunning : u'.client.terminated = u.client.terminated)
    (hevents : u'.client.events = u.client.events) : server.Serving u' left todo where
  written := hwritten.trans h.written
  destroyed := hdestroyed.trans h.destroyed
  running := hrunning.trans h.running
  path := h.path
  texts := hevents ▸ h.texts
  goesOn := h.goesOn

/-! ## The request's reader -/

/-- The head is a response without a body. -/
theorem takes_head (server : SwitchedServer) :
    responseReader.Takes (some .reset) server.head.bytes [server.head.response [] true]
      (some .reset) :=
  readsHead_block.takes_complete server.not_chunked server.no_length

/-- A part of the head gives no response. -/
theorem parseAll_part {p : List UInt8} (hpre : p <+: server.head.bytes)
    (hne : p ≠ server.head.bytes) :
    HttpsClientResponseParser.parseAll ⟨p, .reset⟩ = (some [], ⟨p, .reset⟩) := by
  have hdrain : responseReader.drain (some .reset) p = ⟨some .reset, [], p⟩ :=
    Reader.drain_stop (server.takes_head.part hpre hne)
  have hstate : (responseReader.drain (some (HttpsClientResponseParser.mk p .reset).state)
      (HttpsClientResponseParser.mk p .reset).buffer).state = some .reset :=
    congrArg After.state hdrain
  rw [HttpsClientResponseParser.parseAll_eq hstate]
  dsimp only
  rw [hdrain]

/-- The head gives the response, and nothing is left over. -/
theorem parseAll_head (server : SwitchedServer) :
    HttpsClientResponseParser.parseAll ⟨server.head.bytes, .reset⟩ =
      (some [server.head.response [] true], .fresh) := by
  have hpath := Reader.Path.cons server.takes_head (.nil _)
  have hdrain : responseReader.drain (some .reset) server.head.bytes =
      ⟨some .reset, [server.head.response [] true], []⟩ := by
    rw [← List.append_nil server.head.bytes, ← List.append_nil (server.head.bytes ++ [])]
    exact Reader.drain_whole hpath waits_reset
  have hstate : (responseReader.drain
      (some (HttpsClientResponseParser.mk server.head.bytes .reset).state)
      (HttpsClientResponseParser.mk server.head.bytes .reset).buffer).state = some .reset :=
    congrArg After.state hdrain
  rw [HttpsClientResponseParser.parseAll_eq hstate]
  dsimp only
  rw [hdrain]
  rfl

variable {u : Upgrade} {n : ℕ}

/-- What a run comes to: the phase goes on, with less work. -/
def Advances (server : SwitchedServer) (n : ℕ) (u : Upgrade) : Prop := ∃ m < n, server.Phase m u

/-- **The reader takes a part of the head, or its end.** -/
theorem advances_readingHead {data : Coroutine → List UInt8} {buffer inFlight : List UInt8}
    {pending : List (List UInt8)}
    (hbytes : buffer ++ data .requestWaitForTcpData ++ (pending.flatten ++ inFlight) = server.bytes)
    (hle : server.frameBytes.length ≤ inFlight.length) (hne : ∀ d ∈ pending, d ≠ []) :
    server.Advances (3 * inFlight.length + 2 * pending.length + 3 * server.frames.length + 13)
      ⟨(reading [.setSuspendValue .requestWaitForTcpData] ⟨none, pending⟩ data buffer).runTask,
        inFlight⟩ := by
  have hlength := congrArg List.length hbytes
  simp only [bytes, List.length_append] at hlength
  have hpre : buffer ++ data .requestWaitForTcpData <+: server.head.bytes := by
    refine List.prefix_of_prefix_length_le ⟨_, hbytes⟩ (List.prefix_append _ _) ?_
    rw [List.length_append]
    omega
  by_cases hhead : buffer ++ data .requestWaitForTcpData = server.head.bytes
  · -- the end of the head: the response goes to the request
    rw [hhead, bytes, List.append_cancel_left_eq] at hbytes
    have hnil : pending = [] := by
      have hflatten := congrArg List.length hbytes
      rw [List.length_append] at hflatten
      have hzero : pending.flatten = [] := List.length_eq_zero_iff.mp (by omega)
      rw [List.flatten_eq_nil_iff] at hzero
      exact List.eq_nil_iff_forall_not_mem.mpr fun d hd => hne d hd (hzero d hd)
    subst hnil
    rw [List.flatten_nil, List.nil_append] at hbytes
    have hrun : (reading [.setSuspendValue .requestWaitForTcpData] ⟨none, []⟩ data buffer).runTask =
        server.answered (.setSuspendValue .sendRequest) data false .notConstructed := by
      change HttpsClientWebsocket.receiveResponseData (reading [] ⟨none, []⟩ data buffer) = _
      rw [HttpsClientWebsocket.receiveResponseData, HttpsClientResponseParser.appendData]
      dsimp only [reading]
      rw [hhead, parseAll_head]
      rfl
    rw [hrun, hbytes]
    exact ⟨_, by simp only [List.length_nil]; omega, .answering List.mem_cons_self⟩
  · -- the head is not there yet
    have hlt := length_lt_of_part hpre hhead
    rw [List.length_append] at hlt
    have hparse : ∀ connection,
        (reading [.setSuspendValue .requestWaitForTcpData] connection data buffer).runTask =
          (reading [] connection data (buffer ++ data .requestWaitForTcpData)).waitForData
            .requestWaitForTcpData := by
      intro connection
      change HttpsClientWebsocket.receiveResponseData (reading [] connection data buffer) = _
      rw [HttpsClientWebsocket.receiveResponseData, HttpsClientResponseParser.appendData]
      dsimp only [reading]
      rw [parseAll_part hpre hhead]
      rfl
    rw [hparse]
    cases pending with
    | nil =>
      exact ⟨_, by simp only [List.length_nil]; omega,
        .awaitingHead hbytes (by rwa [List.length_append])⟩
    | cons d pending =>
      have hrest : buffer ++ data .requestWaitForTcpData ++
          Function.update data .requestWaitForTcpData d .requestWaitForTcpData ++
            (pending.flatten ++ inFlight) = server.bytes := by
        rw [Function.update_self, ← hbytes, List.flatten_cons]
        simp only [List.append_assoc]
      exact ⟨_, by simp only [List.length_cons]; omega,
        .readingHead hrest hle fun d' hd' => hne d' (List.mem_cons_of_mem d hd')⟩

/-! ## The session -/

variable {ws : HttpsClientWebsocket} {inFlight : List UInt8} {left : List Frame}
  {todo : List (List UInt8 × List Frame)} {pending : List (List UInt8)}

/-- A frame behind which the loop goes on. -/
theorem delivered_cons {frame : Frame} {events : List SessionEvent} (frames : List Frame)
    (h : clientOnFrame frame = .goOn events) :
    delivered (frame :: frames) = messages events ++ delivered frames := by
  rw [delivered, loopFrames, h]
  exact messages_append events _

/-- The session waits for data behind a loop over frames. -/
theorem phase_waitForData (h : server.Serving ⟨ws, inFlight⟩ [] todo)
    (hconnection : ws.tcpConnection = ⟨none, pending⟩) (hqueue : ws.taskEventQueue = [])
    (hbytes : ws.frameParser.remaining ++ (pending.flatten ++ inFlight) = Reader.bytes todo)
    (hstuck : Reader.Stuck todo ws.frameParser.remaining.length) :
    ∃ m ≤ work ⟨ws, inFlight⟩ pending 0 (Reader.outs todo),
      server.Phase m ⟨{ ws with point := .waitingForData }.waitForData .sessionWaitForTcpData,
        inFlight⟩ := by
  cases pending with
  | nil =>
    have hwait : { ws with point := .waitingForData }.waitForData .sessionWaitForTcpData =
        { ws with
          point := .waitingForData
          tcpConnection := ⟨some .sessionWaitForTcpData, []⟩ } := by
      rw [HttpsClientWebsocket.waitForData]
      dsimp only
      rw [hconnection]
      rfl
    rw [hwait]
    refine ⟨_, ?_, .waiting (h.frame rfl rfl rfl rfl) rfl rfl (.inl hqueue) hbytes hstuck⟩
    dsimp only [work]
    rw [hqueue]
    rfl
  | cons d pending =>
    have hwait : { ws with point := .waitingForData }.waitForData .sessionWaitForTcpData =
        { ws with
          point := .waitingForData
          tcpConnection := ⟨none, pending⟩
          data := Function.update ws.data .sessionWaitForTcpData d
          taskEventQueue := [.setSuspendValue .sessionWaitForTcpData] } := by
      rw [HttpsClientWebsocket.waitForData]
      dsimp only
      rw [hconnection]
      dsimp only [HttpsClientWebsocket.moved, TCPConnection.waitForData,
        HttpsClientWebsocket.setData, HttpsClientWebsocket.post]
      rw [hqueue, List.nil_append]
    have hbytes' : ws.frameParser.remaining ++
        (Function.update ws.data .sessionWaitForTcpData d .sessionWaitForTcpData ++
          (pending.flatten ++ inFlight)) = Reader.bytes todo := by
      rw [Function.update_self, ← hbytes, List.flatten_cons, List.append_assoc]
    rw [hwait]
    refine ⟨_, ?_, .reached (h.frame rfl rfl rfl rfl) rfl rfl (.inl rfl) rfl hbytes'⟩
    simp only [work, List.length_cons, List.length_nil]
    omega

/-- **The loop over the frames** comes to a callback, to its wait or to its end. -/
theorem phase_handleFrames (h : server.Serving ⟨ws, inFlight⟩ left todo)
    (hconnection : ws.tcpConnection = ⟨none, pending⟩) (hqueue : ws.taskEventQueue = [])
    (hbytes : ws.frameParser.remaining ++ (pending.flatten ++ inFlight) = Reader.bytes todo)
    (hstuck : Reader.Stuck todo ws.frameParser.remaining.length) :
    ∃ m ≤ work ⟨ws, inFlight⟩ pending 0 (left ++ Reader.outs todo),
      server.Phase m ⟨ws.handleFrames left, inFlight⟩ := by
  induction left generalizing ws with
  | nil => exact phase_waitForData h hconnection hqueue hbytes hstuck
  | cons frame left ih =>
    have htexts := h.texts
    have hgoesOn := h.goesOn
    rw [HttpsClientWebsocket.handleFrames]
    cases hframe : clientOnFrame frame with
    | goOn events =>
      rw [List.cons_append, delivered_cons _ hframe, ← List.append_assoc,
        ← messages_append] at htexts
      rw [List.cons_append, loopFrames, hframe] at hgoesOn
      dsimp only
      split_ifs with htext
      · refine ⟨_, ?_, .inCallback
          ⟨h.written, h.destroyed, h.running, h.path, htexts, hgoesOn⟩ rfl hconnection hqueue hbytes
          hstuck⟩
        simp only [work, List.cons_append, List.length_cons]
        omega
      · have hserving :
            server.Serving ⟨{ ws with events := ws.events ++ events }, inFlight⟩ left todo :=
          ⟨h.written, h.destroyed, h.running, h.path, htexts, hgoesOn⟩
        obtain ⟨m, hm, hphase⟩ := ih hserving hconnection hqueue hbytes hstuck
        refine ⟨m, hm.trans ?_, hphase⟩
        simp only [work, List.cons_append, List.length_cons]
        omega
    | stop events =>
      rw [List.cons_append, delivered, loopFrames, hframe, ← messages_append] at htexts
      refine ⟨_, ?_, .finished h.written h.running rfl hconnection hqueue htexts⟩
      simp only [work, List.length_nil]
      omega
    | throws =>
      rw [List.cons_append, loopFrames, hframe] at hgoesOn
      exact absurd rfl hgoesOn

/-- **The session takes a read**: the frames that are there are parsed, and the loop goes over
them. -/
theorem phase_resumeSession (h : server.Serving ⟨ws, inFlight⟩ [] todo)
    (hpoint : ws.point = .waitingForData) (hconnection : ws.tcpConnection = ⟨none, pending⟩)
    (hqueue : ws.taskEventQueue = [])
    (hbytes : ws.frameParser.remaining ++ (ws.data .sessionWaitForTcpData ++
      (pending.flatten ++ inFlight)) = Reader.bytes todo) :
    ∃ m ≤ work ⟨ws, inFlight⟩ pending 0 (Reader.outs todo),
      server.Phase m ⟨ws.resumeSession, inFlight⟩ := by
  have hpre : (ws.frameParser.feed (ws.data .sessionWaitForTcpData)).remaining <+:
      Reader.bytes todo ++ [] := by
    rw [WebSocketFrameParser.remaining_feed, List.append_nil, ← hbytes, ← List.append_assoc]
    exact List.prefix_append _ _
  obtain ⟨done, todo', rfl, hpath, hout, hrest, hstuck⟩ := Reader.drain_path h.path waits_nil hpre
  have hstate : (frameReader.drain false
      (ws.frameParser.feed (ws.data .sessionWaitForTcpData)).remaining).state = false :=
    state_of_path hpath
  obtain ⟨hframes, hremaining⟩ := WebSocketFrameParser.parseFrames_eq hstate
  rw [← List.append_assoc, ← WebSocketFrameParser.remaining_feed, hrest, Reader.bytes_append,
    List.append_assoc, List.append_cancel_left_eq] at hbytes
  rw [hstate] at hpath
  cases hparse : (ws.frameParser.feed (ws.data .sessionWaitForTcpData)).parseFrames with
  | mk frames parser =>
    rw [hparse] at hframes hremaining
    dsimp only at hframes hremaining
    subst hframes
    have hresume : ws.resumeSession =
        { ws with frameParser := parser }.handleFrames (Reader.outs done) := by
      rw [HttpsClientWebsocket.resumeSession, hpoint, hparse, hout]
    have htexts := h.texts
    have hgoesOn := h.goesOn
    rw [List.nil_append, Reader.outs_append] at htexts hgoesOn
    have hserving : server.Serving ⟨{ ws with frameParser := parser }, inFlight⟩ (Reader.outs done)
        todo' := ⟨h.written, h.destroyed, h.running, hpath, htexts, hgoesOn⟩
    rw [← hremaining] at hbytes hstuck
    rw [hresume, Reader.outs_append]
    exact phase_handleFrames hserving hconnection hqueue hbytes hstuck

/-! ## A task runs -/

/-- A stale event is taken from the queue, and nothing else happens. -/
theorem runTask_stale {queue : List TaskInfoEvent} (hdestroyed : ws.forceDestroy = true)
    (hqueue : ws.taskEventQueue = .setSuspendValue .requestWaitForTcpData :: queue) :
    ws.runTask = { ws with taskEventQueue := queue } := by
  rw [HttpsClientWebsocket.runTask, hqueue]
  dsimp only [HttpsClientWebsocket.resume]
  rw [if_pos hdestroyed]

/-- The session is resumed. -/
theorem runTask_session {queue : List TaskInfoEvent}
    (hqueue : ws.taskEventQueue = .setSuspendValue .sessionWaitForTcpData :: queue) :
    ws.runTask = { ws with taskEventQueue := queue }.resumeSession := by
  rw [HttpsClientWebsocket.runTask, hqueue]
  rfl

theorem resumeSession_callbackDone (hpoint : ws.point = .callbackDone left) :
    ws.resumeSession = ws.handleFrames left := by
  rw [HttpsClientWebsocket.resumeSession, hpoint]

/-- The request that has been answered goes up to `connect`, which makes the session. -/
theorem advances_answering {data : Coroutine → List UInt8} {coroutine : Coroutine} {k : ℕ}
    (hmem : (coroutine, k) ∈ [(Coroutine.sendRequest, 8), (.get, 7),
      (.sendSwitchProtocolRequest, 6), (.connect, 5)]) :
    server.Advances (3 * server.frameBytes.length + 3 * server.frames.length + k)
      ⟨(server.answered (.setSuspendValue coroutine) data false .notConstructed).runTask,
        server.frameBytes⟩ := by
  simp only [List.mem_cons, Prod.mk.injEq, List.not_mem_nil, or_false] at hmem
  rcases hmem with ⟨rfl, rfl⟩ | ⟨rfl, rfl⟩ | ⟨rfl, rfl⟩ | ⟨rfl, rfl⟩
  · exact ⟨_, by omega, .answering (.tail _ (.head _))⟩
  · exact ⟨_, by omega, .answering (.tail _ (.tail _ (.head _)))⟩
  · have hrun : (server.answered (.setSuspendValue .sendSwitchProtocolRequest) data false
        .notConstructed).runTask =
          server.answered (.setSuspendValue .connect) data false .notConstructed :=
      if_neg fun h => Bool.false_ne_true h.2
    rw [hrun]
    exact ⟨_, by omega, .answering (.tail _ (.tail _ (.tail _ (.head _))))⟩
  · exact ⟨_, by omega, .constructed⟩

/-- The session waits for the first time: all frames are still in flight. -/
theorem advances_constructed {data : Coroutine → List UInt8} :
    server.Advances (3 * server.frameBytes.length + 3 * server.frames.length + 4)
      ⟨(server.answered (.run .sessionWaitForTcpData) data true .constructed).runTask,
        server.frameBytes⟩ := by
  obtain ⟨ts, hpath, hbytes, houts⟩ := exists_path_built server.built
  obtain ⟨hdelivered, hgoesOn⟩ := delivered_frames server.built server.quiet
  rw [← houts] at hdelivered hgoesOn
  have hserving : server.Serving
      ⟨(server.answered (.run .sessionWaitForTcpData) data true .constructed).runTask,
        server.frameBytes⟩ [] ts := ⟨rfl, rfl, rfl, hpath, hdelivered, hgoesOn⟩
  refine ⟨_, ?_, .waiting hserving rfl rfl (.inr rfl) hbytes.symm hpath.stuck_nil⟩
  have hlength := congrArg List.length houts
  rw [List.length_map] at hlength
  change 3 * server.frameBytes.length + 2 * 0 + 1 + 3 * (Reader.outs ts).length < _
  omega

/-- **A task** leaves less work. -/
theorem advances_runTask (h : server.Phase n u) (hqueue : u.client.taskEventQueue ≠ []) :
    server.Advances n ⟨u.client.runTask, u.inFlight⟩ := by
  cases h with
  | @opening k hk =>
    rcases Nat.lt_or_eq_of_le hk with hlt | rfl
    · rw [← Function.iterate_succ_apply' HttpsClientWebsocket.runTask]
      exact ⟨_, by omega, .opening hlt⟩
    · have hbytes : [] ++ server.bytes = server.bytes := List.nil_append _
      have hphase : server.Phase (3 * server.bytes.length + 3 * server.frames.length + 12)
          ⟨HttpsClientWebsocket.runTask^[5] .start, server.bytes⟩ :=
        .awaitingHead hbytes (List.length_pos_of_ne_nil block_ne_nil)
      exact ⟨_, by omega, hphase⟩
  | awaitingHead hbytes hlt => exact absurd rfl hqueue
  | readingHead hbytes hle hne => exact advances_readingHead hbytes hle hne
  | answering hmem => exact advances_answering hmem
  | constructed => exact advances_constructed
  | waiting h hpoint hconnection hstale hbytes hstuck =>
    have hqueue' := hstale.resolve_left hqueue
    rw [runTask_stale h.destroyed hqueue']
    refine ⟨_, ?_, .waiting (h.frame rfl rfl rfl rfl) hpoint hconnection (.inl rfl) hbytes hstuck⟩
    rw [hqueue']
    simp only [work, List.length_cons, List.length_nil]
    omega
  | reached h hpoint hconnection hstale hqueue' hbytes =>
    rcases hstale with rfl | rfl
    · rw [List.nil_append] at hqueue'
      rw [runTask_session hqueue']
      have hserving : server.Serving ⟨{ u.client with taskEventQueue := [] }, u.inFlight⟩ [] _ :=
        h.frame rfl rfl rfl rfl
      obtain ⟨m, hm, hphase⟩ := phase_resumeSession hserving hpoint hconnection rfl hbytes
      refine ⟨m, lt_of_le_of_lt hm ?_, hphase⟩
      rw [hqueue']
      simp only [work, List.length_cons, List.length_nil]
      omega
    · rw [List.singleton_append] at hqueue'
      rw [runTask_stale h.destroyed hqueue']
      refine ⟨_, ?_, .reached (h.frame rfl rfl rfl rfl) hpoint hconnection (.inl rfl) rfl hbytes⟩
      rw [hqueue']
      simp only [work, List.length_cons, List.length_nil]
      omega
  | inCallback h hpoint hconnection hqueue' hbytes hstuck => exact absurd hqueue' hqueue
  | @callbackDone _ left _ _ h hpoint hconnection hqueue' hbytes hstuck =>
    have hresume : u.client.runTask = { u.client with taskEventQueue := [] }.handleFrames left :=
      (runTask_session hqueue').trans (resumeSession_callbackDone hpoint)
    have hserving : server.Serving ⟨{ u.client with taskEventQueue := [] }, u.inFlight⟩ left _ :=
      h.frame rfl rfl rfl rfl
    obtain ⟨m, hm, hphase⟩ := phase_handleFrames hserving hconnection rfl hbytes hstuck
    rw [hresume]
    refine ⟨m, lt_of_le_of_lt hm ?_, hphase⟩
    simp only [work]
    omega
  | finished hwritten hrunning hpoint hconnection hqueue' htexts => exact absurd hqueue' hqueue

/-! ## A callback ends -/

theorem advances_finishCallback (h : server.Phase n u) {frames : List Frame}
    (hpoint : u.client.point = .inCallback frames) :
    server.Advances n ⟨u.client.finishCallback, u.inFlight⟩ := by
  cases h with
  | @opening k hk =>
    have hnone : ∀ k ≤ 4, (HttpsClientWebsocket.runTask^[k] .start).point = .notConstructed := by
      intro k hk
      interval_cases k <;> rfl
    cases (hnone k hk).symm.trans hpoint
  | awaitingHead hbytes hlt => cases hpoint
  | readingHead hbytes hle hne => cases hpoint
  | answering hmem => cases hpoint
  | constructed => cases hpoint
  | waiting h hwaiting hconnection hstale hbytes hstuck => cases hwaiting.symm.trans hpoint
  | reached h hwaiting hconnection hstale hqueue hbytes => cases hwaiting.symm.trans hpoint
  | @inCallback _ left _ _ h hcalled hconnection hqueue hbytes hstuck =>
    have hfinish : u.client.finishCallback =
        { u.client with
          point := .callbackDone left
          taskEventQueue := [.setSuspendValue .sessionWaitForTcpData] } := by
      rw [HttpsClientWebsocket.finishCallback, hcalled]
      dsimp only [HttpsClientWebsocket.post]
      rw [hqueue]
      rfl
    rw [hfinish]
    refine ⟨_, ?_, .callbackDone (h.frame rfl rfl rfl rfl) rfl hconnection rfl hbytes hstuck⟩
    simp only [work]
    omega
  | callbackDone h hdone hconnection hqueue hbytes hstuck => cases hdone.symm.trans hpoint
  | finished hwritten hrunning hfinished hconnection hqueue htexts =>
    cases hfinished.symm.trans hpoint

/-! ## The socket is read -/

/-- Data for nobody is pending. -/
theorem handleReadData_pending {data : List UInt8} (hne : data ≠ [])
    (hconnection : ws.tcpConnection = ⟨none, pending⟩) :
    ws.handleReadData data = { ws with tcpConnection := ⟨none, pending ++ [data]⟩ } := by
  rw [HttpsClientWebsocket.handleReadData, if_neg hne, HttpsClientWebsocket.onResponseReceived,
    hconnection]
  rfl

/-- What is read is what was in flight. -/
theorem flatten_read (pending : List (List UInt8)) (k : ℕ) (inFlight : List UInt8) :
    (pending ++ [inFlight.take k]).flatten ++ inFlight.drop k = pending.flatten ++ inFlight := by
  rw [List.flatten_append, List.flatten_singleton, List.append_assoc, List.take_append_drop]

theorem length_read {k : ℕ} {inFlight : List UInt8} (hne : inFlight.take k ≠ []) :
    (inFlight.drop k).length < inFlight.length := by
  have hlength := congrArg List.length (List.take_append_drop k inFlight)
  have := List.length_pos_of_ne_nil hne
  rw [List.length_append] at hlength
  omega

/-- Data that is put behind the pending data is less work than data in flight. -/
theorem work_read {k : ℕ} (hne : u.inFlight.take k ≠ []) (pending : List (List UInt8)) (queue : ℕ)
    (frames : List Frame) :
    work ⟨ws, u.inFlight.drop k⟩ (pending ++ [u.inFlight.take k]) queue frames <
      work u pending queue frames := by
  have hlt := length_read hne
  simp only [work, List.length_append, List.length_singleton]
  omega

/-- **A read in time** leaves less work. -/
theorem advances_read (h : server.Phase n u) {k : ℕ} (hwritten : u.client.requestWritten = true)
    (hintime : server.InTime u (.socketRead k)) (hne : u.inFlight.take k ≠ []) :
    server.Advances n ⟨u.client.handleReadData (u.inFlight.take k), u.inFlight.drop k⟩ := by
  have hlt := length_read hne
  cases h with
  | @opening i hi =>
    have hnone : ∀ i ≤ 4, (HttpsClientWebsocket.runTask^[i] .start).requestWritten = false := by
      intro i hi
      interval_cases i <;> rfl
    cases (hnone i hi).symm.trans hwritten
  | @awaitingHead data buffer inFlight hbytes hbuffer =>
    have hread : (reading [] ⟨some .requestWaitForTcpData, []⟩ data buffer).handleReadData
        (inFlight.take k) =
          reading [.setSuspendValue .requestWaitForTcpData] ⟨none, []⟩
            (Function.update data .requestWaitForTcpData (inFlight.take k)) buffer := if_neg hne
    have hbytes' : buffer ++ Function.update data .requestWaitForTcpData (inFlight.take k)
        .requestWaitForTcpData ++ (List.flatten [] ++ inFlight.drop k) = server.bytes := by
      rw [Function.update_self, List.flatten_nil, List.nil_append, List.append_assoc,
        List.take_append_drop, hbytes]
    dsimp only at hlt ⊢
    rw [hread]
    refine ⟨_, ?_, .readingHead hbytes' (hintime.2 rfl) fun d hd => absurd hd List.not_mem_nil⟩
    rw [List.length_nil]
    omega
  | @readingHead data buffer inFlight pending hbytes hle hpending =>
    dsimp only at hlt ⊢
    rw [handleReadData_pending hne rfl]
    have hbytes' : buffer ++ data .requestWaitForTcpData ++
        ((pending ++ [inFlight.take k]).flatten ++ inFlight.drop k) = server.bytes := by
      rw [flatten_read, hbytes]
    refine ⟨_, ?_, .readingHead hbytes' (hintime.2 rfl) fun d hd => ?_⟩
    · rw [List.length_append, List.length_singleton]
      omega
    · rcases List.mem_append.mp hd with hd | hd
      · exact hpending d hd
      · exact List.mem_singleton.mp hd ▸ hne
  | answering hmem => exact absurd (hintime.2 rfl) (Nat.not_le.mpr hlt)
  | constructed => exact absurd (hintime.2 rfl) (Nat.not_le.mpr hlt)
  | waiting h hpoint hconnection hstale hbytes hstuck =>
    have hread : u.client.handleReadData (u.inFlight.take k) =
        { u.client with
          tcpConnection := ⟨none, []⟩
          data := Function.update u.client.data .sessionWaitForTcpData (u.inFlight.take k)
          taskEventQueue :=
            u.client.taskEventQueue ++ [.setSuspendValue .sessionWaitForTcpData] } := by
      rw [HttpsClientWebsocket.handleReadData, if_neg hne, HttpsClientWebsocket.onResponseReceived,
        hconnection]
      rfl
    rw [hread]
    refine ⟨_, ?_, .reached (h.frame rfl rfl rfl rfl) hpoint rfl hstale rfl ?_⟩
    · simp only [work, List.length_append, List.length_singleton]
      omega
    · dsimp only
      rw [Function.update_self, List.flatten_nil, List.nil_append, List.take_append_drop]
      exact hbytes
  | reached h hpoint hconnection hstale hqueue hbytes =>
    rw [handleReadData_pending hne hconnection]
    refine ⟨_, ?_, .reached (h.frame rfl rfl rfl rfl) hpoint rfl hstale hqueue ?_⟩
    · exact work_read hne _ _ _
    · dsimp only
      rw [flatten_read]
      exact hbytes
  | inCallback h hpoint hconnection hqueue hbytes hstuck =>
    rw [handleReadData_pending hne hconnection]
    refine ⟨_, ?_, .inCallback (h.frame rfl rfl rfl rfl) hpoint rfl hqueue ?_ hstuck⟩
    · exact work_read hne _ _ _
    · dsimp only
      rw [flatten_read]
      exact hbytes
  | callbackDone h hpoint hconnection hqueue hbytes hstuck =>
    rw [handleReadData_pending hne hconnection]
    refine ⟨_, ?_, .callbackDone (h.frame rfl rfl rfl rfl) hpoint rfl hqueue ?_ hstuck⟩
    · exact work_read hne _ _ _
    · dsimp only
      rw [flatten_read]
      exact hbytes
  | finished hwritten hrunning hpoint hconnection hqueue htexts =>
    rw [handleReadData_pending hne hconnection]
    exact ⟨_, work_read hne _ _ _, .finished hwritten hrunning hpoint rfl hqueue htexts⟩

/-! ## The whole run -/

/-- Before the request is written there is always a task. -/
theorem opening_queue {k : ℕ} (hk : k ≤ 4) :
    (HttpsClientWebsocket.runTask^[k] .start).taskEventQueue ≠ [] := by
  interval_cases k <;> exact List.cons_ne_nil _ _

theorem running_of_phase (h : server.Phase n u) : u.client.terminated = false := by
  cases h with
  | @opening k hk => interval_cases k <;> rfl
  | awaitingHead hbytes hlt => rfl
  | readingHead hbytes hle hne => rfl
  | answering hmem => rfl
  | constructed => rfl
  | waiting h hpoint hconnection hqueue hbytes hstuck => exact h.running
  | reached h hpoint hconnection hstale hqueue hbytes => exact h.running
  | inCallback h hpoint hconnection hqueue hbytes hstuck => exact h.running
  | callbackDone h hpoint hconnection hqueue hbytes hstuck => exact h.running
  | finished hwritten hrunning hpoint hconnection hqueue htexts => exact hrunning

theorem exists_of_isInCallback {point : SessionPoint} (h : point.isInCallback = true) :
    ∃ frames, point = .inCallback frames := by
  cases point with
  | inCallback frames => exact ⟨frames, rfl⟩
  | notConstructed => cases h
  | constructed => cases h
  | waitingForData => cases h
  | callbackDone frames => cases h
  | finished => cases h

/-- **A step** keeps the run in a phase. -/
theorem exists_phase_step {event : UpgradeEvent} (h : server.Phase n u)
    (hintime : server.InTime u event) : ∃ m, server.Phase m (u.step event) := by
  have hrunning := running_of_phase h
  cases event with
  | socketRead k =>
    rw [Upgrade.step_socketRead hrunning hintime.1]
    split_ifs with hwritten
    · by_cases hne : u.inFlight.take k = []
      · have hnone : u.inFlight.drop k = u.inFlight := by
          conv_rhs => rw [← List.take_append_drop k u.inFlight, hne, List.nil_append]
        rw [hne, hnone]
        exact ⟨n, h⟩
      · obtain ⟨m, -, hphase⟩ := advances_read h hwritten hintime hne
        exact ⟨m, hphase⟩
    · exact ⟨n, h⟩
  | runTask =>
    rw [Upgrade.step_runTask hrunning]
    by_cases hqueue : u.client.taskEventQueue = []
    · have hnone : u.client.runTask = u.client := by rw [HttpsClientWebsocket.runTask, hqueue]
      rw [hnone]
      exact ⟨n, h⟩
    · obtain ⟨m, -, hphase⟩ := advances_runTask h hqueue
      exact ⟨m, hphase⟩
  | callbackDone =>
    rw [Upgrade.step_callbackDone hrunning]
    cases hpoint : u.client.point.isInCallback with
    | true =>
      obtain ⟨frames, hcalled⟩ := exists_of_isInCallback hpoint
      obtain ⟨m, -, hphase⟩ := advances_finishCallback h hcalled
      exact ⟨m, hphase⟩
    | false =>
      have hnone : u.client.finishCallback = u.client := by
        rw [HttpsClientWebsocket.finishCallback]
        split
        · rename_i frames hcalled
          rw [hcalled] at hpoint
          cases hpoint
        · rfl
      rw [hnone]
      exact ⟨n, h⟩

/-- What has been delivered is a part of what is sent. -/
theorem messages_isPrefix (h : server.Phase n u) : messages u.client.events <+: server.texts := by
  cases h with
  | @opening k hk =>
    have hnone : (HttpsClientWebsocket.runTask^[k] .start).events = [] := by
      interval_cases k <;> rfl
    dsimp only
    rw [hnone]
    exact List.nil_prefix
  | awaitingHead hbytes hlt => exact List.nil_prefix
  | readingHead hbytes hle hne => exact List.nil_prefix
  | answering hmem => exact List.nil_prefix
  | constructed => exact List.nil_prefix
  | waiting h hpoint hconnection hqueue hbytes hstuck => exact ⟨_, h.texts⟩
  | reached h hpoint hconnection hstale hqueue hbytes => exact ⟨_, h.texts⟩
  | inCallback h hpoint hconnection hqueue hbytes hstuck => exact ⟨_, h.texts⟩
  | callbackDone h hpoint hconnection hqueue hbytes hstuck => exact ⟨_, h.texts⟩
  | finished hwritten hrunning hpoint hconnection hqueue htexts => rw [htexts]

/-- **Where nothing is left to do**, every text has been delivered. -/
theorem messages_of_settled (h : server.Phase n u) (hsettled : u.Settled) :
    messages u.client.events = server.texts := by
  obtain ⟨hflight, hempty, hcalled⟩ := hsettled
  cases h with
  | opening hk => exact absurd hempty (opening_queue hk)
  | @awaitingHead data buffer inFlight hbytes hlt =>
    dsimp only at hflight
    subst hflight
    have hlength := congrArg List.length hbytes
    rw [List.append_nil, bytes, List.length_append] at hlength
    omega
  | readingHead hbytes hle hne => cases hempty
  | answering hmem => cases hempty
  | constructed => cases hempty
  | @waiting _ todo h hpoint hconnection hqueue hbytes hstuck =>
    -- all bytes are there, and the next frame is not: there is none
    have hnone : todo = [] := by
      cases todo with
      | nil => rfl
      | cons tok todo =>
        have hlt := hstuck tok rfl
        rw [← List.append_nil u.client.frameParser.remaining, ← hflight, hbytes, Reader.bytes_cons,
          List.length_append] at hlt
        omega
    have htexts := h.texts
    rw [hnone] at htexts
    exact (List.append_nil _).symm.trans htexts
  | reached h hpoint hconnection hstale hqueue hbytes =>
    rw [hqueue] at hempty
    exact absurd hempty (List.append_ne_nil_of_right_ne_nil _ (List.cons_ne_nil _ _))
  | inCallback h hpoint hconnection hqueue hbytes hstuck =>
    rw [hpoint] at hcalled
    cases hcalled
  | callbackDone h hpoint hconnection hqueue hbytes hstuck =>
    rw [hqueue] at hempty
    cases hempty
  | finished hwritten hrunning hpoint hconnection hqueue htexts => exact htexts

/-- Where no task is left, a byte can be read in time. -/
theorem exists_read (h : server.Phase n u) (hempty : u.client.taskEventQueue = [])
    (hflight : u.inFlight ≠ []) : u.client.requestWritten = true ∧
      server.InTime u (.socketRead 1) ∧ u.inFlight.take 1 ≠ [] := by
  have hone : u.inFlight.take 1 ≠ [] := by
    rw [Ne, List.take_eq_nil_iff, not_or]
    exact ⟨Nat.one_ne_zero, hflight⟩
  have hfits : (u.inFlight.take 1).length < HttpsClientRequestIO.clientBufferSize :=
    Nat.lt_of_le_of_lt (List.length_take_le _ _) (by decide)
  have hintime : u.client.point.hasWaited = true → server.InTime u (.socketRead 1) :=
    fun hwaited => ⟨hfits, fun hnot => absurd (hwaited.symm.trans hnot) Bool.noConfusion⟩
  cases h with
  | opening hk => exact absurd hempty (opening_queue hk)
  | @awaitingHead data buffer inFlight hbytes hlt =>
    have hlength := congrArg List.length hbytes
    rw [bytes, List.length_append, List.length_append] at hlength
    refine ⟨rfl, ⟨hfits, fun _ => ?_⟩, hone⟩
    rw [List.length_drop]
    dsimp only
    omega
  | readingHead hbytes hle hne => cases hempty
  | answering hmem => cases hempty
  | constructed => cases hempty
  | waiting h hpoint hconnection hqueue hbytes hstuck =>
    exact ⟨h.written, hintime (by rw [hpoint]; rfl), hone⟩
  | reached h hpoint hconnection hstale hqueue hbytes =>
    exact ⟨h.written, hintime (by rw [hpoint]; rfl), hone⟩
  | inCallback h hpoint hconnection hqueue hbytes hstuck =>
    exact ⟨h.written, hintime (by rw [hpoint]; rfl), hone⟩
  | callbackDone h hpoint hconnection hqueue hbytes hstuck =>
    exact ⟨h.written, hintime (by rw [hpoint]; rfl), hone⟩
  | finished hwritten hrunning hpoint hconnection hqueue htexts =>
    exact ⟨hwritten, hintime (by rw [hpoint]; rfl), hone⟩

/-- **A run that is not settled can go on**, with less work. -/
theorem exists_advances (h : server.Phase n u) (hnot : ¬ u.Settled) :
    ∃ event, server.InTime u event ∧ server.Advances n (u.step event) := by
  have hrunning := running_of_phase h
  by_cases hempty : u.client.taskEventQueue = []
  · cases hpoint : u.client.point.isInCallback with
    | true =>
      obtain ⟨frames, hcalled⟩ := exists_of_isInCallback hpoint
      refine ⟨.callbackDone, trivial, ?_⟩
      rw [Upgrade.step_callbackDone hrunning]
      exact advances_finishCallback h hcalled
    | false =>
      have hflight : u.inFlight ≠ [] := fun hnil => hnot ⟨hnil, hempty, hpoint⟩
      obtain ⟨hwritten, hintime, hne⟩ := exists_read h hempty hflight
      refine ⟨.socketRead 1, hintime, ?_⟩
      rw [Upgrade.step_socketRead hrunning hintime.1, if_pos hwritten]
      exact advances_read h hwritten hintime hne
  · refine ⟨.runTask, trivial, ?_⟩
    rw [Upgrade.step_runTask hrunning]
    exact advances_runTask h hempty

/-- **Every run can come to its end.** -/
theorem exists_settled (h : server.Phase n u) :
    ∃ es, Run.Along Upgrade.step server.InTime u es ∧ (Run.exec Upgrade.step u es).Settled := by
  induction n using Nat.strong_induction_on generalizing u with
  | _ n ih =>
    by_cases hsettled : u.Settled
    · exact ⟨[], trivial, hsettled⟩
    · obtain ⟨event, hintime, m, hm, hphase⟩ := exists_advances h hsettled
      obtain ⟨es, halong, hend⟩ := ih m hm hphase
      exact ⟨event :: es, ⟨hintime, halong⟩, hend⟩

/-- **No text is lost in a run that reads no frame before the session waits for data**, and never
more at once than the buffer holds: the message callback has been called with a part of the texts at every state, and with all of them, in order and
once each, where nothing is left to do; and every run can be continued to such a state. -/
theorem texts_delivered {es : List UpgradeEvent}
    (h : Run.Along Upgrade.step server.InTime (.start server.bytes) es) :
    messages (Run.exec Upgrade.step (.start server.bytes) es).client.events <+: server.texts ∧
      ((Run.exec Upgrade.step (.start server.bytes) es).Settled →
        messages (Run.exec Upgrade.step (.start server.bytes) es).client.events = server.texts) ∧
      ∃ es', Run.Along Upgrade.step server.InTime
          (Run.exec Upgrade.step (.start server.bytes) es) es' ∧
        (Run.exec Upgrade.step (Run.exec Upgrade.step (.start server.bytes) es) es').Settled := by
  have hstart : ∃ n, server.Phase n (.start server.bytes) := ⟨_, .opening (Nat.zero_le 4)⟩
  have hstep : ∀ u event, (∃ n, server.Phase n u) → server.InTime u event →
      ∃ n, server.Phase n (u.step event) := fun u event ⟨_, hphase⟩ hintime =>
    exists_phase_step hphase hintime
  obtain ⟨n, hphase⟩ := Run.exec_of_invariant hstep hstart h
  exact ⟨messages_isPrefix hphase, messages_of_settled hphase, exists_settled hphase⟩

/-- A server that sends a ping, "hi", "ok" and a close frame behind its response. -/
def hiServer : SwitchedServer where
  head :=
    { code := Ascii.text "101"
      reason := Ascii.text "Switching"
      fields := []
      code_digits := ⟨rfl, Ascii.forall_of_all (by decide)⟩
      reason_char := Ascii.forall_of_all (by decide)
      numeric := fun _ hfield => absurd hfield List.not_mem_nil }
  frames :=
    [⟨.ping, [], true, false, fun _ => 0⟩, ⟨.text, [104, 105], true, false, fun _ => 0⟩,
      ⟨.text, [111, 107], true, false, fun _ => 0⟩, ⟨.close, [], true, false, fun _ => 0⟩]
  builts := [[0x89, 0], [0x81, 2, 104, 105], [0x81, 2, 111, 107], [0x88, 0]]
  code_eq := rfl
  not_chunked := rfl
  no_length := rfl
  built := .cons rfl (.cons rfl (.cons rfl (.cons rfl .nil)))
  quiet := by decide

/-- The head comes in two reads, and "hi" is cut. -/
def timelyRun : List UpgradeEvent :=
  List.replicate 5 UpgradeEvent.runTask ++ [.socketRead 6, .socketRead 20] ++
    List.replicate 7 UpgradeEvent.runTask ++
    [.socketRead 5, .runTask, .runTask, .socketRead 20, .runTask, .callbackDone, .runTask,
      .callbackDone, .runTask]

theorem timelyRun_delivered :
    messages (Run.exec Upgrade.step (.start hiServer.bytes) timelyRun).client.events =
      [[104, 105], [111, 107]] := by
  have hintime : Run.Along Upgrade.step hiServer.InTime (.start hiServer.bytes) timelyRun := by
    decide
  have hsettled : (Run.exec Upgrade.step (.start hiServer.bytes) timelyRun).Settled := by decide
  have htexts : hiServer.texts = [[104, 105], [111, 107]] := rfl
  rw [← htexts]
  exact (hiServer.texts_delivered hintime).2.1 hsettled

/-- **The response and all frames in one read**: nothing is left to do, and no text has come. -/
theorem oneRead_not_delivered :
    (Run.exec Upgrade.step (.start hiServer.bytes)
      (List.replicate 5 .runTask ++ .socketRead 100 :: List.replicate 7 .runTask)).Settled ∧
    messages (Run.exec Upgrade.step (.start hiServer.bytes)
      (List.replicate 5 .runTask ++ .socketRead 100 :: List.replicate 7 .runTask)).client.events ≠
        hiServer.texts := by
  decide

end SwitchedServer

end TradingEngine
