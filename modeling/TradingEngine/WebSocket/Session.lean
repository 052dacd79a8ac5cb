import TradingEngine.WebSocket.Parser

/-!
# WebSocket/Session — the frame loops of the client and of the server

Both loops feed what was read to the parser and then go over the frames.  They differ in what a
frame does (`onFrame`), so the loop is one definition.  A callback is taken to be done when it is
called; a task of the server that calls one is started in the order of the frames.  Its start takes
two places in the queue of the event base that runs the loop, and a full queue ends the process:
`serverLoop` counts the places, and is the loop of `serverOnFrame` where they suffice
(`serverLoop_eq`).
-/

namespace TradingEngine

namespace WebSocket

/-- What a loop does: it calls the message callback, or writes a frame. -/
inductive SessionEvent
  | onMessage (message : List UInt8)
  | write (opcode : Opcode) (payload : List UInt8)
  deriving DecidableEq, Repr

/-- What a frame does: the loop goes on, ends, or an exception leaves it. -/
inductive Reaction
  | goOn (events : List SessionEvent)
  | stop (events : List SessionEvent)
  | throws

/-- Where a loop stands. -/
inductive LoopState
  | running
  | stopped
  | terminated
  deriving DecidableEq, Repr

/-- A control frame is written; `build_frame` throws above 125 bytes. -/
def writeControl (opcode : Opcode) (payload : List UInt8)
    (reaction : List SessionEvent → Reaction) : Reaction :=
  if 125 < payload.length then .throws else reaction [.write opcode payload]

/-- The messages the callback was called with. -/
def messages (events : List SessionEvent) : List (List UInt8) :=
  events.filterMap fun
    | .onMessage message => some message
    | .write _ _ => none

@[simp] theorem messages_append (events events' : List SessionEvent) :
    messages (events ++ events') = messages events ++ messages events' := List.filterMap_append

/-! ## A loop over frames -/

/-- The loop over the frames of one call. -/
def loopFrames (onFrame : Frame → Reaction) : List Frame → List SessionEvent × LoopState
  | [] => ([], .running)
  | frame :: frames =>
    match onFrame frame with
    | .goOn events => (events ++ (loopFrames onFrame frames).1, (loopFrames onFrame frames).2)
    | .stop events => (events, .stopped)
    | .throws => ([], .terminated)

/-- A parser with a loop over its frames. -/
structure FrameLoop where
  parser : WebSocketFrameParser
  state : LoopState

namespace FrameLoop

/-- A new parser, and the loop in front of its first read. -/
def start : FrameLoop := ⟨.clear, .running⟩

/-- One read: `feed`, `parse_frames` and the loop over the frames. -/
def receive (onFrame : Frame → Reaction) (loop : FrameLoop) (data : List UInt8) :
    List SessionEvent × FrameLoop :=
  if loop.state = .running then
    match (loop.parser.feed data).parseFrames with
    | (none, parser) => ([], ⟨parser, .terminated⟩)
    | (some frames, parser) =>
      ((loopFrames onFrame frames).1, ⟨parser, (loopFrames onFrame frames).2⟩)
  else ([], loop)

/-- What all reads do. -/
def receiveAll (onFrame : Frame → Reaction) (loop : FrameLoop) :
    List (List UInt8) → List SessionEvent
  | [] => []
  | data :: reads =>
    (loop.receive onFrame data).1 ++ receiveAll onFrame (loop.receive onFrame data).2 reads

end FrameLoop

/-! ## The client -/

/-- The body of the loop of `HttpsClientWebsocketSession::wait_for_tcp_data`. -/
def clientOnFrame (frame : Frame) : Reaction :=
  if frame.opcode = Opcode.text.code then .goOn [.onMessage frame.payload]
  else if frame.opcode = Opcode.binary.code then .goOn []
  else if frame.opcode = Opcode.close.code then .stop [.write .close []]
  else if frame.opcode = Opcode.ping.code then writeControl .pong frame.payload .goOn
  else if frame.opcode = Opcode.pong.code then .goOn []
  else .goOn []

/-- `HttpsClientWebsocketSession::wait_for_tcp_data`, over the reads. -/
def clientReceive (reads : List (List UInt8)) : List SessionEvent :=
  FrameLoop.start.receiveAll clientOnFrame reads

/-! ## The server -/

/-- `WebsocketState`. -/
inductive WebsocketState
  | waitingHttpUpgrade
  | webSocketOpen
  | closing
  deriving DecidableEq, Repr

/-- The payload of the close frame that answers one: its code and reason, or 1000. -/
def closePayload (frame : Frame) : List UInt8 :=
  if frame.payload.length ≥ 2 then frame.payload else appendU16Be 1000

/-- The body of the loop of `HttpWebsocketConnectionIO::handle_websocket_bytes`, where the start of
`run_on_message` finds its places in the event queue: `serverLoop` asks for them. -/
def serverOnFrame (state : WebsocketState) (frame : Frame) : Reaction :=
  if frame.opcode = Opcode.text.code then .goOn [.onMessage frame.payload]
  else if frame.opcode = Opcode.binary.code then .goOn []
  else if frame.opcode = Opcode.ping.code then
    if state = .webSocketOpen then writeControl .pong frame.payload .goOn else .goOn []
  else if frame.opcode = Opcode.pong.code then .goOn []
  else if frame.opcode = Opcode.close.code then
    if state ≠ .closing then writeControl .close (closePayload frame) .stop else .stop []
  else .goOn []

/-- The text frames among some frames. -/
def textFrames (frames : List Frame) : ℕ := frames.countP (·.opcode = Opcode.text.code)

/-- The loop of `HttpWebsocketConnectionIO::handle_websocket_bytes`, with so many places free in the
queue of the event base.  A text frame starts a `run_on_message` and gives its `Task` up, which
pushes `RUN` and `REMOVE_AWAITER`; a push that is refused ends the process. -/
def serverLoop (state : WebsocketState) (places : ℕ) :
    List Frame → List SessionEvent × LoopState
  | [] => ([], .running)
  | frame :: frames =>
    if frame.opcode = Opcode.text.code ∧ places < 2 then ([], .terminated)
    else
      let left := if frame.opcode = Opcode.text.code then places - 2 else places
      match serverOnFrame state frame with
      | .goOn events =>
        (events ++ (serverLoop state left frames).1, (serverLoop state left frames).2)
      | .stop events => (events, .stopped)
      | .throws => ([], .terminated)

namespace FrameLoop

/-- One read of the server, and the places that are free when it comes. -/
def serve (state : WebsocketState) (loop : FrameLoop) (places : ℕ) (data : List UInt8) :
    List SessionEvent × FrameLoop :=
  if loop.state = .running then
    match (loop.parser.feed data).parseFrames with
    | (none, parser) => ([], ⟨parser, .terminated⟩)
    | (some frames, parser) =>
      ((serverLoop state places frames).1, ⟨parser, (serverLoop state places frames).2⟩)
  else ([], loop)

/-- What all reads do. -/
def serveAll (state : WebsocketState) (loop : FrameLoop) :
    List (ℕ × List UInt8) → List SessionEvent
  | [] => []
  | (places, data) :: reads =>
    (loop.serve state places data).1 ++ serveAll state (loop.serve state places data).2 reads

end FrameLoop

/-- `HttpWebsocketConnectionIO::handle_websocket_bytes`, over the reads of a connection that is open
or closing; a close frame ends the connection, so the state is that of the first read. -/
def serverReceive (state : WebsocketState) (reads : List (ℕ × List UInt8)) : List SessionEvent :=
  FrameLoop.start.serveAll state reads

/-- The frames that a read completes. -/
def completed (parser : WebSocketFrameParser) (data : List UInt8) : List Frame :=
  (parser.feed data).parseFrames.1.getD []

/-- **There are places for the text frames** that each read completes. -/
def HasPlaces (parser : WebSocketFrameParser) : List (ℕ × List UInt8) → Prop
  | [] => True
  | (places, data) :: reads =>
    2 * textFrames (completed parser data) ≤ places ∧
      HasPlaces (parser.feed data).parseFrames.2 reads

/-! ## The reads do not matter -/

variable {onFrame : Frame → Reaction}

theorem loopFrames_append (frames frames' : List Frame) :
    loopFrames onFrame (frames ++ frames') =
      if (loopFrames onFrame frames).2 = .running then
        ((loopFrames onFrame frames).1 ++ (loopFrames onFrame frames').1,
          (loopFrames onFrame frames').2)
      else loopFrames onFrame frames := by
  induction frames with
  | nil => rfl
  | cons frame frames ih =>
    rw [List.cons_append, loopFrames, loopFrames]
    cases onFrame frame with
    | goOn events =>
      dsimp only
      rw [ih]
      split_ifs with h
      · rw [List.append_assoc]
      · rfl
    | stop events => rfl
    | throws => rfl

/-- A loop that has ended does nothing. -/
theorem receiveAll_ended {loop : FrameLoop} (h : loop.state ≠ .running)
    (reads : List (List UInt8)) :
    loop.receiveAll onFrame reads = [] := by
  induction reads with
  | nil => rfl
  | cons data reads ih =>
    rw [FrameLoop.receiveAll, FrameLoop.receive, if_neg h, ih, List.append_nil]

/-- **The reads do together what one loop over all frames does.** -/
theorem receiveAll_eq {parser : WebSocketFrameParser} {reads : List (List UInt8)}
    {frames : List Frame} (h : (parser.feedPieces reads).1 = some frames) :
    FrameLoop.receiveAll onFrame ⟨parser, .running⟩ reads = (loopFrames onFrame frames).1 := by
  induction reads generalizing parser frames with
  | nil =>
    cases h
    rfl
  | cons data reads ih =>
    rw [WebSocketFrameParser.feedPieces] at h
    rw [FrameLoop.receiveAll, FrameLoop.receive, if_pos rfl]
    dsimp only
    cases hparse : (parser.feed data).parseFrames with
    | mk first parser' =>
      rw [hparse] at h
      cases first with
      | none => cases h
      | some first =>
        dsimp only at h ⊢
        obtain ⟨later, hlater, rfl⟩ := Option.map_eq_some_iff.mp h
        rw [loopFrames_append]
        by_cases hrun : (loopFrames onFrame first).2 = .running
        · rw [if_pos hrun, hrun, ih hlater]
        · rw [if_neg hrun, receiveAll_ended hrun, List.append_nil]

/-! ## The loop of the server where the queue has places -/

variable {state : WebsocketState} {places : ℕ} {frames : List Frame}

theorem serverOnFrame_text {frame : Frame} (htext : frame.opcode = Opcode.text.code) :
    serverOnFrame state frame = .goOn [.onMessage frame.payload] := if_pos htext

theorem textFrames_cons (frame : Frame) (frames : List Frame) :
    textFrames (frame :: frames) =
      textFrames frames + if frame.opcode = Opcode.text.code then 1 else 0 := by
  rw [textFrames, List.countP_cons, textFrames]
  simp only [decide_eq_true_eq]

/-- **Where the queue has places for the text frames, no push is refused.** -/
theorem serverLoop_eq (h : 2 * textFrames frames ≤ places) :
    serverLoop state places frames = loopFrames (serverOnFrame state) frames := by
  induction frames generalizing places with
  | nil => rfl
  | cons frame frames ih =>
    rw [textFrames_cons] at h
    rw [serverLoop, loopFrames]
    by_cases htext : frame.opcode = Opcode.text.code
    · rw [if_pos htext] at h
      rw [if_neg (by omega), serverOnFrame_text htext]
      dsimp only
      rw [if_pos htext, ih (by omega)]
    · rw [if_neg htext] at h
      rw [if_neg fun hfull => htext hfull.1]
      dsimp only
      rw [if_neg htext, ih h]

theorem serve_eq {loop : FrameLoop} {data : List UInt8}
    (h : 2 * textFrames (completed loop.parser data) ≤ places) :
    loop.serve state places data = loop.receive (serverOnFrame state) data := by
  rw [FrameLoop.serve, FrameLoop.receive]
  split
  · rw [completed] at h
    cases hparse : (loop.parser.feed data).parseFrames with
    | mk first parser =>
      cases first with
      | none => rfl
      | some first =>
        rw [hparse] at h
        have hplaces : 2 * textFrames first ≤ places := h
        dsimp only
        rw [serverLoop_eq hplaces]
  · rfl

/-- The parser behind a read of a loop that has not ended. -/
theorem parser_receive {loop : FrameLoop} (h : loop.state = .running) (data : List UInt8) :
    (loop.receive onFrame data).2.parser = (loop.parser.feed data).parseFrames.2 := by
  rw [FrameLoop.receive, if_pos h]
  rcases (loop.parser.feed data).parseFrames with ⟨_ | first, parser⟩ <;> rfl

theorem serveAll_ended {loop : FrameLoop} (h : loop.state ≠ .running)
    (reads : List (ℕ × List UInt8)) : loop.serveAll state reads = [] := by
  induction reads with
  | nil => rfl
  | cons read reads ih =>
    rw [FrameLoop.serveAll, FrameLoop.serve, if_neg h, ih, List.append_nil]

theorem serveAll_eq {loop : FrameLoop} {reads : List (ℕ × List UInt8)}
    (h : HasPlaces loop.parser reads) :
    loop.serveAll state reads = loop.receiveAll (serverOnFrame state) (reads.map (·.2)) := by
  induction reads generalizing loop with
  | nil => rfl
  | cons read reads ih =>
    obtain ⟨places, data⟩ := read
    by_cases hrunning : loop.state = .running
    · have hserve : loop.serve state places data = loop.receive (serverOnFrame state) data :=
        serve_eq h.1
      rw [List.map_cons, FrameLoop.serveAll, FrameLoop.receiveAll, hserve, ih]
      rw [parser_receive hrunning]
      exact h.2
    · rw [serveAll_ended hrunning, receiveAll_ended hrunning]

/-! ## The loop of the server where the queue is full -/

/-- The loop goes on behind each of the frames. -/
def GoesOn (onFrame : Frame → Reaction) (frames : List Frame) : Prop :=
  ∀ frame ∈ frames, ∃ events, onFrame frame = .goOn events

theorem goesOn_of_running (h : (loopFrames onFrame frames).2 = .running) :
    GoesOn onFrame frames := by
  induction frames with
  | nil => exact fun frame hmem => absurd hmem List.not_mem_nil
  | cons frame frames ih =>
    rw [loopFrames] at h
    cases hframe : onFrame frame with
    | goOn events =>
      rw [hframe] at h
      exact List.forall_mem_cons.mpr ⟨⟨events, hframe⟩, ih h⟩
    | stop events =>
      rw [hframe] at h
      cases h
    | throws =>
      rw [hframe] at h
      cases h

/-- Only a text frame calls the callback. -/
theorem length_messages_serverOnFrame {frame : Frame} {events : List SessionEvent}
    (h : serverOnFrame state frame = .goOn events) :
    (messages events).length = if frame.opcode = Opcode.text.code then 1 else 0 := by
  by_cases htext : frame.opcode = Opcode.text.code
  · rw [serverOnFrame_text htext] at h
    cases h
    rw [if_pos htext]
    rfl
  · rw [serverOnFrame, if_neg htext] at h
    rw [if_neg htext]
    unfold writeControl at h
    split_ifs at h <;> cases h <;> rfl

theorem length_messages_loopFrames (h : GoesOn (serverOnFrame state) frames) :
    (messages (loopFrames (serverOnFrame state) frames).1).length = textFrames frames ∧
      (loopFrames (serverOnFrame state) frames).2 = .running := by
  induction frames with
  | nil => exact ⟨rfl, rfl⟩
  | cons frame frames ih =>
    obtain ⟨⟨events, hframe⟩, hframes⟩ := List.forall_mem_cons.mp h
    obtain ⟨hlength, hrunning⟩ := ih hframes
    rw [loopFrames, hframe]
    refine ⟨?_, hrunning⟩
    rw [messages_append, List.length_append, hlength, length_messages_serverOnFrame hframe,
      textFrames_cons, Nat.add_comm]

/-- **Where the places do not suffice, the process ends** with texts that were not handed over. -/
theorem serverLoop_overrun (hgo : GoesOn (serverOnFrame state) frames)
    (h : places < 2 * textFrames frames) :
    (serverLoop state places frames).2 = .terminated ∧
      (messages (serverLoop state places frames).1).length < textFrames frames := by
  induction frames generalizing places with
  | nil => exact absurd h (Nat.not_lt_zero _)
  | cons frame frames ih =>
    obtain ⟨⟨events, hframe⟩, hframes⟩ := List.forall_mem_cons.mp hgo
    rw [textFrames_cons] at h ⊢
    rw [serverLoop]
    by_cases hfull : frame.opcode = Opcode.text.code ∧ places < 2
    · rw [if_pos hfull, if_pos hfull.1]
      exact ⟨rfl, Nat.succ_pos _⟩
    · have hleft : (if frame.opcode = Opcode.text.code then places - 2 else places) <
          2 * textFrames frames := by
        by_cases htext : frame.opcode = Opcode.text.code
        · have htwo : ¬ places < 2 := fun hlt => hfull ⟨htext, hlt⟩
          rw [if_pos htext] at h ⊢
          omega
        · rwa [if_neg htext] at h ⊢
      rw [if_neg hfull]
      obtain ⟨hstate, hlength⟩ := ih hframes hleft
      dsimp only
      rw [hframe]
      refine ⟨hstate, ?_⟩
      rw [messages_append, List.length_append, length_messages_serverOnFrame hframe]
      omega

/-- **Reads without places hand over fewer texts** than they bring. -/
theorem serveAll_overrun {parser : WebSocketFrameParser} {reads : List (ℕ × List UInt8)}
    {frames : List Frame} (hfeed : (parser.feedPieces (reads.map (·.2))).1 = some frames)
    (hgo : GoesOn (serverOnFrame state) frames) (h : ¬ HasPlaces parser reads) :
    (messages (FrameLoop.serveAll state ⟨parser, .running⟩ reads)).length < textFrames frames := by
  induction reads generalizing parser frames with
  | nil => exact absurd trivial h
  | cons read reads ih =>
    obtain ⟨places, data⟩ := read
    rw [List.map_cons, WebSocketFrameParser.feedPieces] at hfeed
    rw [HasPlaces, completed] at h
    rw [FrameLoop.serveAll, FrameLoop.serve, if_pos rfl]
    dsimp only at hfeed h ⊢
    cases hparse : (parser.feed data).parseFrames with
    | mk first parser' =>
      rw [hparse] at hfeed h
      cases first with
      | none => cases hfeed
      | some first =>
        dsimp only [Option.getD] at hfeed h ⊢
        obtain ⟨later, hlater, rfl⟩ := Option.map_eq_some_iff.mp hfeed
        have hfirst : GoesOn (serverOnFrame state) first := fun frame hmem =>
          hgo frame (List.mem_append_left _ hmem)
        have hrest : GoesOn (serverOnFrame state) later := fun frame hmem =>
          hgo frame (List.mem_append_right _ hmem)
        have htexts : textFrames (first ++ later) = textFrames first + textFrames later :=
          List.countP_append
        rw [messages_append, List.length_append, htexts]
        rcases Nat.lt_or_ge places (2 * textFrames first) with hlt | hle
        · obtain ⟨hstate, hlength⟩ := serverLoop_overrun hfirst hlt
          rw [hstate, serveAll_ended LoopState.noConfusion]
          exact Nat.lt_of_lt_of_le hlength (Nat.le_add_right _ _)
        · obtain ⟨hlength, hrunning⟩ := length_messages_loopFrames hfirst
          have hlater' := ih hlater hrest fun hplaces => h ⟨hle, hplaces⟩
          rw [serverLoop_eq hle, hrunning, hlength]
          omega

end WebSocket

end TradingEngine
