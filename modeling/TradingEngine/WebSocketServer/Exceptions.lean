import TradingEngine.Coroutine.EventQueue
import TradingEngine.WebSocketServer.Connection

/-!
# WebSocketServer/Exceptions — what leaves a handler of an open connection

The handlers of `WebSocketServer/Connection` again, now with the object an exception leaves behind
and with the places of the event queue, to which the start of every `run_on_message` pushes twice.
A call is sound if it returns, refuses what it must refuse, and does not close a connection without a
close frame; `sound_iff` says of which calls this is true.
-/

namespace TradingEngine

open Ascii Incremental WebSocket

/-- How a call ends. -/
inductive CallEnd
  | returns (code : ℤ)
  | throws
  deriving DecidableEq

/-- What a call leaves behind, also when it throws. -/
structure Left where
  conn : HttpWebsocketConnectionIO
  effects : List ConnectionEffect
  ending : CallEnd

/-- What a call leaves behind if no exception leaves it. -/
def Left.handled (left : Left) : Option Handled :=
  match left.ending with
  | .returns code => some ⟨left.conn, left.effects, code⟩
  | .throws => none

/-- The events that a call has pushed: for each coroutine that it starts and gives up, `RUN` and
`REMOVE_AWAITER`. -/
def Left.pushes (left : Left) : ℕ := 2 * left.effects.length

/-- A call of an open connection: bytes have come, with so many places free in the queue of the event
base, or `on_connect` has returned. -/
inductive ConnectionCall
  | bytes (places : ℕ) (data : List UInt8)
  | onConnect (result : Except (List UInt8) Bool)

namespace HttpWebsocketConnectionIO

/-! ## The handlers -/

/-- `write_close`: the state is set before the frame is built. -/
def tryWriteClose (conn : HttpWebsocketConnectionIO) (closeCode : ℕ) (reason : List UInt8)
    (code : ℤ) : Left :=
  if conn.state = .closing then ⟨conn, [], .returns code⟩
  else
    let closing := { conn with state := .closing }
    match buildFrame (frameArgs .close (appendU16Be closeCode ++ reason)) with
    | .error _ => ⟨closing, [], .throws⟩
    | .ok frame => ⟨closing.writeRawFrame frame, [], .returns code⟩

/-- `write_pong`. -/
def tryWritePong (conn : HttpWebsocketConnectionIO) (payload : List UInt8) : Left :=
  if conn.state ≠ .webSocketOpen then ⟨conn, [], .returns 0⟩
  else
    match buildFrame (frameArgs .pong payload) with
    | .error _ => ⟨conn, [], .throws⟩
    | .ok frame => ⟨conn.writeRawFrame frame, [], .returns 0⟩

/-- `run_on_message(message).start_running_on(epoll_base)`, and the destructor of the `Task`: `RUN`
and `REMOVE_AWAITER` are pushed, and the thread that would take them is this one.  A push that the
queue refuses ends the process. -/
def startOnMessage (conn : HttpWebsocketConnectionIO) (places : ℕ) (message : List UInt8) : Left :=
  if 2 ≤ places then ⟨conn, [.runOnMessage message], .returns 0⟩ else ⟨conn, [], .throws⟩

/-- The body of the loop of `handle_websocket_bytes`; it goes on if this returns 0. -/
def onFrame (conn : HttpWebsocketConnectionIO) (places : ℕ) (frame : Frame) : Left :=
  if frame.opcode = Opcode.text.code then conn.startOnMessage places frame.payload
  else if frame.opcode = Opcode.binary.code then ⟨conn, [], .returns 0⟩
  else if frame.opcode = Opcode.ping.code then conn.tryWritePong frame.payload
  else if frame.opcode = Opcode.pong.code then ⟨conn, [], .returns 0⟩
  else if frame.opcode = Opcode.close.code then
    if conn.state ≠ .closing then
      if frame.payload.length ≥ 2 then
        conn.tryWriteClose (readU16Be frame.payload) (frame.payload.drop 2) (-1)
      else conn.tryWriteClose 1000 [] (-1)
    else ⟨conn, [], .returns (-1)⟩
  else ⟨conn, [], .returns 0⟩

/-- The loop over the frames. -/
def serveFrames (conn : HttpWebsocketConnectionIO) (places : ℕ) : List Frame → Left
  | [] => ⟨conn, [], .returns 0⟩
  | frame :: frames =>
    let first := conn.onFrame places frame
    if first.ending = .returns 0 then
      let later := first.conn.serveFrames (places - first.pushes) frames
      { later with effects := first.effects ++ later.effects }
    else first

/-- `handle_websocket_bytes`. -/
def serveBytes (conn : HttpWebsocketConnectionIO) (places : ℕ) (data : List UInt8) : Left :=
  match (conn.frameParser.feed data).parseFrames with
  | (none, parser) => ⟨{ conn with frameParser := parser }, [], .throws⟩
  | (some frames, parser) => { conn with frameParser := parser }.serveFrames places frames

/-- `run_on_connect`, behind its `co_await`. -/
def runOnConnect (conn : HttpWebsocketConnectionIO) (result : Except (List UInt8) Bool) : Left :=
  if conn.hasCallbacks then
    match result with
    | .ok true => ⟨conn, [], .returns 0⟩
    | .ok false => conn.tryWriteClose 1008 (text "Connection rejected by server") 0
    | .error reason => conn.tryWriteClose 1008 reason 0
  else ⟨conn, [], .returns 0⟩

def serve (conn : HttpWebsocketConnectionIO) : ConnectionCall → Left
  | .bytes places data => conn.serveBytes places data
  | .onConnect result => conn.runOnConnect result

/-- The calls of a connection until one does not return 0, each with the object it finds. -/
def trace (conn : HttpWebsocketConnectionIO) :
    List ConnectionCall → List (Prod HttpWebsocketConnectionIO ConnectionCall)
  | [] => []
  | call :: calls =>
    (conn, call) ::
      if (conn.serve call).ending = .returns 0 then (conn.serve call).conn.trace calls else []

end HttpWebsocketConnectionIO

/-! ## What is wanted -/

namespace WebSocket

/-- A control frame that is too long. -/
def Frame.Oversized (frame : Frame) : Prop := 0x8 ≤ frame.opcode ∧ 125 < frame.payload.length

/-- The bytes begin with a header that announces more than any buffer holds. -/
def Absurd (rest : List UInt8) : Prop :=
  ∃ header ∈ readHeader rest, maxVectorSize < header.payloadLen

/-- The size it announces wraps to one that is there. -/
def Wraps (rest : List UInt8) : Prop :=
  ∃ header ∈ readHeader rest, maxVectorSize < header.payloadLen ∧
    (header.headerSize + header.payloadLen) % 2 ^ 64 ≤ rest.length

/-- The whole frames of some bytes, and the bytes behind them. -/
def framesOf (p : List UInt8) : List Frame := (frameReader.drain false p).out

def restOf (p : List UInt8) : List UInt8 := (frameReader.drain false p).rest

end WebSocket

/-- The connection is given up: -1 is returned, or 0 with the connection closing. -/
def Left.Refused (left : Left) : Prop :=
  left.ending = .returns (-1) ∨ left.ending = .returns 0 ∧ left.conn.state = .closing

namespace HttpWebsocketConnectionIO

/-- The bytes that are parsed in a call. -/
def pending (conn : HttpWebsocketConnectionIO) (data : List UInt8) : List UInt8 :=
  conn.frameParser.remaining ++ data

/-- What a call must refuse is refused. -/
def Refuses (conn : HttpWebsocketConnectionIO) : ConnectionCall → Prop
  | .bytes places data =>
    (∀ front frame, front ++ [frame] <+: framesOf (conn.pending data) → frame.Oversized →
      (conn.serveFrames places (front ++ [frame])).Refused) ∧
    (Absurd (restOf (conn.pending data)) → (conn.serveBytes places data).Refused)
  | .onConnect (.error reason) =>
    conn.hasCallbacks = true → 123 < reason.length → (conn.runOnConnect (.error reason)).Refused
  | .onConnect (.ok _) => True

/-- **A sound call**: it returns 0 or -1, refuses what it must, and closes with a close frame. -/
structure Sound (conn : HttpWebsocketConnectionIO) (call : ConnectionCall) : Prop where
  returns : (conn.serve call).ending = .returns 0 ∨ (conn.serve call).ending = .returns (-1)
  refuses : conn.Refuses call
  whole : (conn.serve call).conn.state = .closing → conn.state = .closing ∨
    ∃ payload, (frameArgs .close payload).out ∈ (conn.serve call).conn.io.writeQueue

/-- The frames up to the first that closes the connection. -/
def reached : List Frame → List Frame
  | [] => []
  | frame :: frames =>
    frame :: if frame.opcode = Opcode.close.code then [] else reached frames

/-- The text frames among them. -/
def messages (frames : List Frame) : ℕ := textFrames (reached frames)

/-- **What may come**: no length that wraps, and no more text frames in front of a close frame than
half the places of the queue; and, unless the connection is closing, no control frame of more than
125 bytes in front of or in a close frame, no length above that of a vector unless a close frame has
come, and no reason for a rejection of more than 123 bytes. -/
def Admissible (conn : HttpWebsocketConnectionIO) : ConnectionCall → Prop
  | .bytes places data =>
    ¬ Wraps (restOf (conn.pending data)) ∧ 2 * messages (framesOf (conn.pending data)) ≤ places ∧
      (conn.state = .closing ∨
        (∀ frame ∈ reached (framesOf (conn.pending data)), ¬ frame.Oversized) ∧
        ((∃ frame ∈ framesOf (conn.pending data), frame.opcode = Opcode.close.code) ∨
          ¬ Absurd (restOf (conn.pending data))))
  | .onConnect result =>
    conn.hasCallbacks = false ∨ conn.state = .closing ∨
      ∀ reason, result = .error reason → reason.length ≤ 123

end HttpWebsocketConnectionIO

/-! ## The parser -/

namespace WebSocket

variable {p : List UInt8}

theorem parseFrame_eq_throws : parseFrame p = .throws ↔ Wraps p := by
  rw [parseFrame, Wraps]
  cases hread : readHeader p with
  | none => simp
  | some header =>
    dsimp only
    constructor
    · intro h
      split_ifs at h with hlt hmax
      exact ⟨header, rfl, hmax, Nat.not_lt.mp hlt⟩
    · rintro ⟨_, ⟨⟩, hmax, hle⟩
      rw [if_neg (Nat.not_lt.mpr hle), if_pos hmax]

/-- **The parser throws** if and only if the size of the next header wraps. -/
theorem state_drain (p : List UInt8) : (frameReader.drain false p).state = true ↔ Wraps (restOf p) := by
  rw [restOf]
  induction hn : p.length using Nat.strong_induction_on generalizing p with
  | h n ih =>
    subst hn
    have hstep := frameReader_step false p
    rw [frameStep] at hstep
    cases hparse : parseFrame p with
    | needMore =>
      rw [hparse] at hstep
      rw [Reader.drain_stop hstep]
      refine iff_of_false Bool.false_ne_true fun hwraps => ?_
      rw [parseFrame_eq_throws.mpr hwraps] at hparse
      cases hparse
    | throws =>
      rw [hparse] at hstep
      rw [Reader.drain_stop hstep]
      exact iff_of_true rfl (parseFrame_eq_throws.mp hparse)
    | parsed frame totalSize =>
      rw [hparse] at hstep
      rw [Reader.drain_next hstep]
      exact ih _ (frameReader.decreases hstep) _ rfl

end WebSocket

namespace WebSocketFrameParser

variable {parser : WebSocketFrameParser}

theorem readFrames_thrown {fuel : ℕ} (h : parser.remaining.length < fuel)
    (hstate : (frameReader.drain false parser.remaining).state = true) :
    (parser.readFrames fuel).1 = none := by
  induction fuel generalizing parser with
  | zero => exact absurd h (Nat.not_lt_zero _)
  | succ fuel ih =>
    have hstep := frameReader_step false parser.remaining
    rw [frameStep] at hstep
    rw [readFrames]
    split
    · rename_i hparse
      rw [hparse] at hstep
      rw [Reader.drain_stop hstep] at hstate
      cases hstate
    · rfl
    · rename_i frame totalSize hparse
      rw [hparse] at hstep
      have hlt := frameReader.decreases hstep
      rw [Reader.drain_next hstep] at hstate
      rw [← remaining_advance parser totalSize (parseFrame_le hparse)] at hlt hstate
      have hnone := ih (Nat.lt_of_lt_of_le hlt (Nat.le_of_lt_succ h)) hstate
      exact congrArg (Option.map (frame :: ·)) hnone

theorem parseFrames_of_wraps (h : Wraps (restOf parser.remaining)) : parser.parseFrames.1 = none := by
  have hfuel : parser.remaining.length < parser.bufferedSize + 1 := by
    rw [length_remaining]
    exact Nat.lt_succ_self _
  have hnone := readFrames_thrown hfuel ((state_drain _).mpr h)
  rw [parseFrames]
  cases hread : parser.readFrames (parser.bufferedSize + 1) with
  | mk frames parser' =>
    rw [hread] at hnone
    dsimp only at hnone
    rw [hnone]

theorem parseFrames_of_not_wraps (h : ¬ Wraps (restOf parser.remaining)) :
    parser.parseFrames.1 = some (framesOf parser.remaining) :=
  (parseFrames_eq (Bool.eq_false_iff.mpr (mt (state_drain _).mp h))).1

end WebSocketFrameParser

/-! ## The builders -/

namespace HttpWebsocketConnectionIO

variable {conn : HttpWebsocketConnectionIO} {opcode : Opcode} {payload : List UInt8}

theorem buildFrame_control (h : payload.length ≤ 125) :
    buildFrame (frameArgs opcode payload) = .ok (frameArgs opcode payload).out := by
  have hreserved : ¬ maxVectorSize < (frameArgs opcode payload).reserved := by
    have hmax : maxVectorSize = 2 ^ 63 - 1 := rfl
    have hsize : (frameArgs opcode payload).reserved = 2 + 0 + 0 + payload.length := by
      rw [FrameArgs.reserved, if_pos (show (frameArgs opcode payload).payload.length ≤ 125 from h)]
      rfl
    omega
  rw [buildFrame, if_neg fun hfin => Bool.false_ne_true hfin.2.symm,
    if_neg fun hlong => absurd hlong.2 (Nat.not_lt.mpr h), if_neg hreserved]

theorem buildFrame_oversized (hop : isControlOpcode opcode = true) (h : 125 < payload.length) :
    buildFrame (frameArgs opcode payload) = .error "Control frame payload must be <= 125" := by
  rw [buildFrame, if_neg fun hfin => Bool.false_ne_true hfin.2.symm, if_pos ⟨hop, h⟩]

/-- Data that is written waits in the queue while the socket would block. -/
theorem mem_writeQueue_write (object : SystemIOObject) {data : List UInt8} (hne : data ≠ [])
    (h : data.length < 2 ^ 31) :
    data ∈ (object.write rawWriteToSocketIo .wouldBlock data).1.writeQueue := by
  have hall : ¬ (-1 : ℤ) = toInt data.length := by
    rw [toInt_of_lt h]
    omega
  rw [SystemIOObject.write, if_neg hne]
  split_ifs
  · rw [SystemIOObject.enableWriteEvent_writeQueue, SystemIOObject.pushBack_writeQueue]
    exact List.mem_append_right _ List.mem_cons_self
  · have hblocked : (⟨data, ⟨-1, true⟩⟩ : SocketCall).isBlocked = true := rfl
    dsimp only [rawWriteToSocketIo]
    rw [if_neg hall, if_neg (by decide), if_pos hblocked, SystemIOObject.enableWriteEvent_writeQueue]
    exact List.mem_append_right _ List.mem_cons_self

theorem mem_writeQueue_writeRawFrame (h : payload.length ≤ 125) :
    (frameArgs opcode payload).out ∈
      (conn.writeRawFrame (frameArgs opcode payload).out).io.writeQueue := by
  refine mem_writeQueue_write conn.io (List.cons_ne_nil _ _) ?_
  have hbuilt : appendPayloadLength payload.length false =
      [highBit false ||| UInt8.ofNat payload.length] := if_pos h
  change (_ :: appendPayloadLength payload.length false ++ payload).length < 2 ^ 31
  rw [hbuilt, List.cons_append, List.length_cons, List.length_append, List.length_singleton]
  omega

/-! ## One frame -/

/-- A close frame has been queued. -/
def SaysClose (conn : HttpWebsocketConnectionIO) : Prop :=
  conn.state = .closing ∧ ∃ payload, (frameArgs .close payload).out ∈ conn.io.writeQueue

variable {code : ℤ} {closeCode : ℕ} {reason : List UInt8} {frame : Frame}

theorem tryWriteClose_closing (hstate : conn.state = .closing) :
    conn.tryWriteClose closeCode reason code = ⟨conn, [], .returns code⟩ := if_pos hstate

theorem length_closeReason (closeCode : ℕ) (reason : List UInt8) :
    (appendU16Be closeCode ++ reason).length = 2 + reason.length := by
  rw [List.length_append, appendU16Be, length_appendBe]

/-- A reason that fits is sent. -/
theorem tryWriteClose_short (hstate : conn.state ≠ .closing) (h : reason.length ≤ 123) :
    (conn.tryWriteClose closeCode reason code).ending = .returns code ∧
      (conn.tryWriteClose closeCode reason code).conn.SaysClose := by
  have hlength : (appendU16Be closeCode ++ reason).length ≤ 125 := by
    rw [length_closeReason]
    omega
  rw [tryWriteClose, if_neg hstate, buildFrame_control hlength]
  exact ⟨rfl, rfl, _, mem_writeQueue_writeRawFrame hlength⟩

theorem tryWriteClose_long (hstate : conn.state ≠ .closing) (h : 123 < reason.length) :
    (conn.tryWriteClose closeCode reason code).ending = .throws := by
  have hlength : 125 < (appendU16Be closeCode ++ reason).length := by
    rw [length_closeReason]
    omega
  rw [tryWriteClose, if_neg hstate, buildFrame_oversized rfl hlength]

/-- The queue has places for what a frame starts. -/
def Room (places : ℕ) (frame : Frame) : Prop := frame.opcode = Opcode.text.code → 2 ≤ places

variable {places : ℕ}

theorem startOnMessage_of_room (h : 2 ≤ places) (message : List UInt8) :
    conn.startOnMessage places message = ⟨conn, [.runOnMessage message], .returns 0⟩ := if_pos h

/-- **A text frame that finds no places ends the process.** -/
theorem onFrame_of_not_room (conn : HttpWebsocketConnectionIO) (h : ¬ Room places frame) :
    conn.onFrame places frame = ⟨conn, [], .throws⟩ := by
  obtain ⟨htext, hplaces⟩ := Classical.not_imp.mp h
  rw [onFrame, if_pos htext, startOnMessage, if_neg hplaces]

/-- A text frame that finds its places. -/
theorem onFrame_text (htext : frame.opcode = Opcode.text.code) (h : Room places frame) :
    conn.onFrame places frame = ⟨conn, [.runOnMessage frame.payload], .returns 0⟩ := by
  rw [onFrame, if_pos htext, startOnMessage_of_room (h htext)]

/-- **The places that a frame takes.** -/
theorem pushes_onFrame (conn : HttpWebsocketConnectionIO) (h : Room places frame) :
    (conn.onFrame places frame).pushes = if frame.opcode = Opcode.text.code then 2 else 0 := by
  have hpong : (conn.tryWritePong frame.payload).effects = [] := by
    rw [tryWritePong]
    split_ifs
    · rfl
    · split <;> rfl
  have hclose : ∀ closeCode reason code, (conn.tryWriteClose closeCode reason code).effects = [] := by
    intro closeCode reason code
    rw [tryWriteClose]
    split_ifs
    · rfl
    · split <;> rfl
  by_cases htext : frame.opcode = Opcode.text.code
  · rw [onFrame_text htext h, if_pos htext]
    rfl
  · rw [if_neg htext, Left.pushes, onFrame, if_neg htext]
    split_ifs <;> simp only [hpong, hclose, List.length_nil, Nat.mul_zero]

/-- A frame on a connection that is closing. -/
theorem onFrame_closing (hstate : conn.state = .closing) (h : Room places frame) :
    (conn.onFrame places frame).conn = conn ∧ (conn.onFrame places frame).ending =
      if frame.opcode = Opcode.close.code then .returns (-1) else .returns 0 := by
  by_cases hclose : frame.opcode = Opcode.close.code
  · rw [if_pos hclose, onFrame, hclose, if_neg (by decide), if_neg (by decide), if_neg (by decide),
      if_neg (by decide), if_pos rfl, if_neg (not_not.mpr hstate)]
    exact ⟨rfl, rfl⟩
  by_cases htext : frame.opcode = Opcode.text.code
  · rw [if_neg hclose, onFrame_text htext h]
    exact ⟨rfl, rfl⟩
  have hpong : conn.tryWritePong frame.payload = ⟨conn, [], .returns 0⟩ := by
    rw [tryWritePong, if_pos]
    rw [hstate]
    decide
  rw [if_neg hclose, onFrame, if_neg htext, hpong, if_neg hclose]
  split_ifs <;> exact ⟨rfl, rfl⟩

/-- A close frame on an open connection. -/
theorem onFrame_close (hstate : conn.state = .webSocketOpen)
    (hclose : frame.opcode = Opcode.close.code) :
    if frame.payload.length ≤ 125 then
      (conn.onFrame places frame).ending = .returns (-1) ∧
        (conn.onFrame places frame).conn.SaysClose
    else (conn.onFrame places frame).ending = .throws := by
  have hne : conn.state ≠ .closing := by
    rw [hstate]
    decide
  have hcall : conn.onFrame places frame =
      if frame.payload.length ≥ 2 then
        conn.tryWriteClose (readU16Be frame.payload) (frame.payload.drop 2) (-1)
      else conn.tryWriteClose 1000 [] (-1) := by
    rw [onFrame, hclose, if_neg (by decide), if_neg (by decide), if_neg (by decide),
      if_neg (by decide), if_pos rfl, if_pos hne]
  rw [hcall]
  split_ifs with hshort htwo htwo
  · exact tryWriteClose_short hne (by rw [List.length_drop]; omega)
  · exact tryWriteClose_short hne (Nat.zero_le _)
  · exact tryWriteClose_long hne (by rw [List.length_drop]; omega)
  · omega

/-- Another frame on an open connection: a ping that is too long throws, and a text frame without
places. -/
theorem onFrame_other (hstate : conn.state = .webSocketOpen)
    (hclose : frame.opcode ≠ Opcode.close.code) (h : Room places frame) :
    if frame.opcode = Opcode.ping.code ∧ 125 < frame.payload.length then
      (conn.onFrame places frame).ending = .throws
    else (conn.onFrame places frame).ending = .returns 0 ∧
      (conn.onFrame places frame).conn.state = .webSocketOpen := by
  by_cases hping : frame.opcode = Opcode.ping.code
  · have hcall : conn.onFrame places frame = conn.tryWritePong frame.payload := by
      rw [onFrame, hping, if_neg (by decide), if_neg (by decide), if_pos rfl]
    rw [hcall, tryWritePong, if_neg (not_not.mpr hstate)]
    split_ifs with hlong
    · rw [buildFrame_oversized rfl hlong.2]
    · rw [buildFrame_control (Nat.not_lt.mp fun hlt => hlong ⟨hping, hlt⟩)]
      exact ⟨rfl, hstate⟩
  · rw [if_neg fun h => hping h.1]
    by_cases htext : frame.opcode = Opcode.text.code
    · rw [onFrame_text htext h]
      exact ⟨rfl, hstate⟩
    · rw [onFrame, if_neg htext, if_neg hping, if_neg hclose]
      split_ifs <;> exact ⟨rfl, hstate⟩

/-- A control frame starts nothing. -/
theorem room_of_oversized (h : frame.Oversized) : Room places frame := fun htext => by
  have hcontrol := h.1
  rw [htext] at hcontrol
  exact absurd hcontrol (by decide)

/-- **A frame that is too long is not refused** while the connection is open. -/
theorem not_refused_oversized (hstate : conn.state = .webSocketOpen) (h : frame.Oversized)
    (places : ℕ) :
    ¬ (conn.onFrame places frame).Refused := by
  have hlong : ¬ frame.payload.length ≤ 125 := Nat.not_le.mpr h.2
  by_cases hclose : frame.opcode = Opcode.close.code
  · have hend := @onFrame_close conn frame places hstate hclose
    rw [if_neg hlong] at hend
    rw [Left.Refused, hend]
    exact not_or.mpr ⟨nofun, fun hzero => CallEnd.noConfusion hzero.1⟩
  · have hend := @onFrame_other conn frame places hstate hclose (room_of_oversized h)
    split_ifs at hend
    · rw [Left.Refused, hend]
      exact not_or.mpr ⟨nofun, fun hzero => CallEnd.noConfusion hzero.1⟩
    · rw [Left.Refused, hend.1, hend.2]
      decide

/-- A frame that fits is refused or answered, and the connection stays open unless it says close. -/
theorem onFrame_fits (hstate : conn.state = .webSocketOpen) (h : ¬ frame.Oversized)
    (hroom : Room places frame) :
    if frame.opcode = Opcode.close.code then
      (conn.onFrame places frame).ending = .returns (-1) ∧
        (conn.onFrame places frame).conn.SaysClose
    else (conn.onFrame places frame).ending = .returns 0 ∧
      (conn.onFrame places frame).conn.state = .webSocketOpen := by
  have hlength : ∀ opcode : UInt8, 0x8 ≤ opcode → frame.opcode = opcode →
      frame.payload.length ≤ 125 := fun opcode hle heq =>
    Nat.not_lt.mp fun hlt => h ⟨heq ▸ hle, hlt⟩
  split_ifs with hclose
  · have hend := @onFrame_close conn frame places hstate hclose
    rwa [if_pos (hlength _ (by decide) hclose)] at hend
  · have hend := onFrame_other hstate hclose hroom
    rwa [if_neg fun hping => absurd hping.2
      (Nat.not_lt.mpr (hlength _ (by decide) hping.1))] at hend

/-! ## The loop -/

variable {frames : List Frame}

theorem messages_close (hclose : frame.opcode = Opcode.close.code) :
    messages (frame :: frames) = 0 := by
  rw [messages, reached, if_pos hclose, textFrames_cons, hclose]
  rfl

theorem messages_cons (hclose : frame.opcode ≠ Opcode.close.code) :
    messages (frame :: frames) =
      messages frames + if frame.opcode = Opcode.text.code then 1 else 0 := by
  rw [messages, reached, if_neg hclose, textFrames_cons, messages]

/-- **The places for the frames** are there for the first of them, and what it takes is not needed
for the others. -/
theorem room_cons (h : 2 * messages (frame :: frames) ≤ places) : Room places frame := by
  intro htext
  have hclose : frame.opcode ≠ Opcode.close.code := by
    rw [htext]
    decide
  rw [messages_cons hclose, if_pos htext] at h
  omega

theorem places_cons (conn : HttpWebsocketConnectionIO) (hclose : frame.opcode ≠ Opcode.close.code)
    (hroom : Room places frame) :
    2 * messages (frame :: frames) ≤ places ↔
      2 * messages frames ≤ places - (conn.onFrame places frame).pushes := by
  rw [messages_cons hclose, pushes_onFrame conn hroom]
  split_ifs with htext
  · have htwo := hroom htext
    omega
  · exact Iff.rfl

theorem serveFrames_cons :
    (conn.serveFrames places (frame :: frames)).ending =
        (if (conn.onFrame places frame).ending = .returns 0 then
          ((conn.onFrame places frame).conn.serveFrames
            (places - (conn.onFrame places frame).pushes) frames).ending
        else (conn.onFrame places frame).ending) ∧
      (conn.serveFrames places (frame :: frames)).conn =
        if (conn.onFrame places frame).ending = .returns 0 then
          ((conn.onFrame places frame).conn.serveFrames
            (places - (conn.onFrame places frame).pushes) frames).conn
        else (conn.onFrame places frame).conn := by
  rw [serveFrames]
  split_ifs <;> exact ⟨rfl, rfl⟩

/-- Behind a frame that returns 0. -/
theorem refused_cons_of_zero (h : (conn.onFrame places frame).ending = .returns 0) :
    (conn.serveFrames places (frame :: frames)).Refused ↔
      ((conn.onFrame places frame).conn.serveFrames
        (places - (conn.onFrame places frame).pushes) frames).Refused := by
  rw [Left.Refused, Left.Refused, serveFrames_cons.1, serveFrames_cons.2, if_pos h, if_pos h]

theorem refused_cons_of_ne (h : (conn.onFrame places frame).ending ≠ .returns 0) :
    (conn.serveFrames places (frame :: frames)).Refused ↔
      (conn.onFrame places frame).Refused := by
  rw [Left.Refused, Left.Refused, serveFrames_cons.1, serveFrames_cons.2, if_neg h, if_neg h]

/-- **A connection that is closing** refuses whatever comes, if there are places. -/
theorem serveFrames_closing (hstate : conn.state = .closing)
    (hplaces : 2 * messages frames ≤ places) :
    (conn.serveFrames places frames).conn = conn ∧
      ((conn.serveFrames places frames).ending = .returns 0 ∨
        (conn.serveFrames places frames).ending = .returns (-1)) := by
  induction frames generalizing places with
  | nil => exact ⟨rfl, .inl rfl⟩
  | cons frame frames ih =>
    have hroom := room_cons hplaces
    obtain ⟨hconn, hend⟩ := onFrame_closing hstate hroom
    rw [serveFrames_cons.1, serveFrames_cons.2, hconn]
    by_cases hclose : frame.opcode = Opcode.close.code
    · rw [hend, if_pos hclose]
      exact ⟨rfl, .inr rfl⟩
    · rw [if_neg hclose] at hend
      rw [if_pos hend, if_pos hend]
      exact ih ((places_cons conn hclose hroom).mp hplaces)

/-- **An open connection** with frames that fit, and places for them. -/
theorem serveFrames_fits (hstate : conn.state = .webSocketOpen)
    (h : ∀ frame ∈ reached frames, ¬ frame.Oversized) (hplaces : 2 * messages frames ≤ places) :
    if ∃ frame ∈ frames, frame.opcode = Opcode.close.code then
      (conn.serveFrames places frames).ending = .returns (-1) ∧
        (conn.serveFrames places frames).conn.SaysClose
    else (conn.serveFrames places frames).ending = .returns 0 ∧
      (conn.serveFrames places frames).conn.state = .webSocketOpen := by
  induction frames generalizing conn places with
  | nil =>
    rw [if_neg (by rintro ⟨_, ⟨⟩, -⟩)]
    exact ⟨rfl, hstate⟩
  | cons frame frames ih =>
    have hroom := room_cons hplaces
    have hfirst := onFrame_fits hstate (h frame List.mem_cons_self) hroom
    rw [serveFrames_cons.1, serveFrames_cons.2]
    by_cases hclose : frame.opcode = Opcode.close.code
    · rw [if_pos hclose] at hfirst
      have hne : (conn.onFrame places frame).ending ≠ .returns 0 := by
        rw [hfirst.1]
        decide
      rw [if_pos ⟨frame, List.mem_cons_self, hclose⟩, if_neg hne, if_neg hne]
      exact hfirst
    · rw [if_neg hclose] at hfirst
      have hrest := ih hfirst.2 (fun f hf => h f (by
        rw [reached, if_neg hclose]
        exact List.mem_cons_of_mem frame hf)) ((places_cons conn hclose hroom).mp hplaces)
      have hex : (∃ f ∈ frame :: frames, f.opcode = Opcode.close.code) ↔
          ∃ f ∈ frames, f.opcode = Opcode.close.code := by
        rw [List.exists_mem_cons_iff]
        exact or_iff_right hclose
      simp only [hex, if_pos hfirst.1]
      exact hrest

/-- The loop goes on behind a frame that fits and does not close the connection. -/
theorem onFrame_goes_on
    (h : conn.state = .closing ∨ (conn.state = .webSocketOpen ∧ ¬ frame.Oversized))
    (hclose : frame.opcode ≠ Opcode.close.code) (hroom : Room places frame) :
    (conn.onFrame places frame).ending = .returns 0 ∧
      (conn.onFrame places frame).conn.state = conn.state := by
  rcases h with hstate | ⟨hstate, hfits⟩
  · obtain ⟨hconn, hend⟩ := onFrame_closing hstate hroom
    rw [if_neg hclose] at hend
    exact ⟨hend, congrArg _ hconn⟩
  · have hfirst := onFrame_fits hstate hfits hroom
    rw [if_neg hclose] at hfirst
    exact ⟨hfirst.1, hfirst.2.trans hstate.symm⟩

/-- **Text frames beyond the places of the queue end the process.** -/
theorem serveFrames_overrun
    (h : conn.state = .closing ∨
      (conn.state = .webSocketOpen ∧ ∀ frame ∈ reached frames, ¬ frame.Oversized))
    (hplaces : places < 2 * messages frames) :
    (conn.serveFrames places frames).ending = .throws := by
  induction frames generalizing conn places with
  | nil => exact absurd hplaces (Nat.not_lt_zero _)
  | cons frame frames ih =>
    rw [serveFrames_cons.1]
    by_cases hclose : frame.opcode = Opcode.close.code
    · rw [messages_close hclose] at hplaces
      exact absurd hplaces (Nat.not_lt_zero _)
    by_cases hroom : Room places frame
    · have hfirst : conn.state = .closing ∨ (conn.state = .webSocketOpen ∧ ¬ frame.Oversized) :=
        h.imp_right fun hopen => ⟨hopen.1, hopen.2 frame List.mem_cons_self⟩
      obtain ⟨hend, hstate⟩ := onFrame_goes_on hfirst hclose hroom
      rw [if_pos hend]
      refine ih ?_ ?_
      · rw [hstate]
        refine h.imp_right fun hopen => ⟨hopen.1, fun f hf => hopen.2 f ?_⟩
        rw [reached, if_neg hclose]
        exact List.mem_cons_of_mem frame hf
      · exact Nat.lt_of_not_le fun hle =>
          absurd ((places_cons conn hclose hroom).mpr hle) (Nat.not_le.mpr hplaces)
    · rw [onFrame_of_not_room conn hroom]
      rfl

/-- **A frame that is too long is not refused** wherever it is reached. -/
theorem exists_not_refused (hstate : conn.state = .webSocketOpen)
    (h : ∃ frame ∈ reached frames, frame.Oversized) (places : ℕ) :
    ∃ front frame, front ++ [frame] <+: frames ∧ frame.Oversized ∧
      ¬ (conn.serveFrames places (front ++ [frame])).Refused := by
  induction frames generalizing conn places with
  | nil =>
    obtain ⟨frame, hframe, -⟩ := h
    exact absurd hframe List.not_mem_nil
  | cons first frames ih =>
    by_cases hlong : first.Oversized
    · refine ⟨[], first, List.prefix_append [first] frames, hlong, fun hrefused => ?_⟩
      refine not_refused_oversized hstate hlong places ?_
      by_cases hzero : (conn.onFrame places first).ending = .returns 0
      · rw [List.nil_append, refused_cons_of_zero hzero] at hrefused
        rw [Left.Refused, hzero]
        exact hrefused
      · exact (refused_cons_of_ne hzero).mp hrefused
    have hclose : first.opcode ≠ Opcode.close.code := by
      intro hclose
      obtain ⟨frame, hframe, hover⟩ := h
      rw [reached, if_pos hclose, List.mem_singleton] at hframe
      exact hlong (hframe ▸ hover)
    rw [reached, if_neg hclose, List.exists_mem_cons_iff] at h
    by_cases hroom : Room places first
    · obtain ⟨hend, hopen⟩ := onFrame_goes_on (.inr ⟨hstate, hlong⟩) hclose hroom
      obtain ⟨front, frame, hpre, hover, hnot⟩ :=
        ih (hopen.trans hstate) (h.resolve_left hlong) (places - (conn.onFrame places first).pushes)
      exact ⟨first :: front, frame, List.cons_prefix_cons.mpr ⟨rfl, hpre⟩, hover,
        fun hrefused => hnot ((refused_cons_of_zero hend).mp hrefused)⟩
    · obtain ⟨front, frame, hpre, hover, -⟩ := ih hstate (h.resolve_left hlong) places
      refine ⟨first :: front, frame, List.cons_prefix_cons.mpr ⟨rfl, hpre⟩, hover, ?_⟩
      have hthrows := onFrame_of_not_room conn hroom
      rw [List.cons_append, refused_cons_of_ne (by rw [hthrows]; exact nofun), hthrows]
      exact not_or.mpr ⟨nofun, fun hzero => CallEnd.noConfusion hzero.1⟩

/-- Where none is reached there is nothing to refuse. -/
theorem not_oversized_of_prefix {front : List Frame} (hpre : front ++ [frame] <+: frames)
    (h : ∀ frame ∈ reached frames, ¬ frame.Oversized) (hlong : frame.Oversized) :
    ∃ f ∈ front, f.opcode = Opcode.close.code := by
  induction frames generalizing front with
  | nil => exact absurd (List.prefix_nil.mp hpre) (List.append_ne_nil_of_right_ne_nil _ nofun)
  | cons first frames ih =>
    cases front with
    | nil =>
      obtain ⟨rfl, -⟩ := List.cons_prefix_cons.mp hpre
      exact absurd hlong (h frame List.mem_cons_self)
    | cons f front =>
      obtain ⟨rfl, hrest⟩ := List.cons_prefix_cons.mp hpre
      by_cases hclose : f.opcode = Opcode.close.code
      · exact ⟨f, List.mem_cons_self, hclose⟩
      · obtain ⟨g, hg, hclosing⟩ := ih hrest fun f' hf' => h f' (by
          rw [reached, if_neg hclose]
          exact List.mem_cons_of_mem f hf')
        exact ⟨g, List.mem_cons_of_mem f hg, hclosing⟩

/-- The frames that are reached of a beginning with a close frame are all that are reached. -/
theorem reached_prefix {front : List Frame} (hpre : front <+: frames)
    (hclose : ∃ f ∈ front, f.opcode = Opcode.close.code) : reached front = reached frames := by
  induction frames generalizing front with
  | nil =>
    obtain rfl := List.prefix_nil.mp hpre
    rfl
  | cons first frames ih =>
    cases front with
    | nil =>
      obtain ⟨f, hf, -⟩ := hclose
      exact absurd hf List.not_mem_nil
    | cons f front =>
      obtain ⟨rfl, hrest⟩ := List.cons_prefix_cons.mp hpre
      rw [reached, reached]
      by_cases hhead : f.opcode = Opcode.close.code
      · rw [if_pos hhead, if_pos hhead]
      · rw [List.exists_mem_cons_iff] at hclose
        rw [if_neg hhead, if_neg hhead, ih hrest (hclose.resolve_left hhead)]

/-- **Frames that are too long are refused**, where none is reached and the queue has places. -/
theorem refused_of_fits (hstate : conn.state = .webSocketOpen)
    (h : ∀ frame ∈ reached frames, ¬ frame.Oversized) (hplaces : 2 * messages frames ≤ places) :
    ∀ front frame, front ++ [frame] <+: frames → frame.Oversized →
      (conn.serveFrames places (front ++ [frame])).Refused := by
  intro front frame hpre hlong
  obtain ⟨f, hf, hclose⟩ := not_oversized_of_prefix hpre h hlong
  have hex : ∃ f ∈ front ++ [frame], f.opcode = Opcode.close.code :=
    ⟨f, List.mem_append_left _ hf, hclose⟩
  have hreached := reached_prefix hpre hex
  have hfits := @serveFrames_fits conn places (front ++ [frame]) hstate (by rwa [hreached])
    (by rwa [messages, hreached])
  rw [if_pos hex] at hfits
  exact .inl hfits.1

/-! ## The handlers without what an exception leaves -/

/-- The code and the reason of a close frame are its payload. -/
theorem appendU16Be_readU16Be {p : List UInt8} (h : 2 ≤ p.length) :
    appendU16Be (readU16Be p) ++ p.drop 2 = p := by
  match p with
  | a :: b :: tail =>
    have ha := a.toNat_lt
    have hb := b.toNat_lt
    have hnumber : readU16Be (a :: b :: tail) = a.toNat * 256 + b.toNat := by
      have hor := Nat.shiftLeft_add_eq_or_of_lt hb a.toNat
      simp only [readU16Be, readBe, List.take, List.foldl, Nat.zero_shiftLeft, Nat.zero_or]
      rw [← hor, Nat.shiftLeft_eq]
    have hhigh : UInt8.ofNat ((a.toNat * 256 + b.toNat) >>> 8) = a := by
      rw [Nat.shiftRight_eq_div_pow, show (a.toNat * 256 + b.toNat) / 2 ^ 8 = a.toNat by omega,
        UInt8.ofNat_toNat]
    have hlow : UInt8.ofNat ((a.toNat * 256 + b.toNat) >>> 0) = b := by
      refine UInt8.toNat_inj.mp ?_
      rw [UInt8.toNat_ofNat', Nat.shiftRight_zero]
      omega
    rw [hnumber]
    change UInt8.ofNat ((a.toNat * 256 + b.toNat) >>> 8) ::
      UInt8.ofNat ((a.toNat * 256 + b.toNat) >>> 0) :: tail = _
    rw [hhigh, hlow]

/-- `write_close` is the one of the other handlers. -/
theorem writeClose_eq (conn : HttpWebsocketConnectionIO) (closeCode : ℕ) (reason : List UInt8) :
    conn.writeClose closeCode reason =
      (conn.tryWriteClose closeCode reason 0).handled.map (·.conn) := by
  rw [writeClose, tryWriteClose]
  by_cases hstate : conn.state = .closing
  · rw [if_pos hstate, if_pos hstate]
    rfl
  · rw [if_neg hstate, if_neg hstate]
    cases buildFrame (frameArgs .close (appendU16Be closeCode ++ reason)) <;> rfl

theorem onEvents_append (conn : HttpWebsocketConnectionIO) (events events' : List SessionEvent) :
    conn.onEvents (events ++ events') =
      (((conn.onEvents events).1.onEvents events').1,
        (conn.onEvents events).2 ++ ((conn.onEvents events).1.onEvents events').2) := by
  induction events generalizing conn with
  | nil => rfl
  | cons event events ih => rw [List.cons_append, onEvents, onEvents, ih, List.append_assoc]

/-- What the reaction of a loop is on the object. -/
def Reacts (conn : HttpWebsocketConnectionIO) (left : Left) : Reaction → Prop
  | .goOn events => left = ⟨(conn.onEvents events).1, (conn.onEvents events).2, .returns 0⟩ ∧
      (conn.onEvents events).1.state = conn.state
  | .stop events => left = ⟨(conn.onEvents events).1, (conn.onEvents events).2, .returns (-1)⟩
  | .throws => left.ending = .throws

theorem reacts_pong (hstate : conn.state = .webSocketOpen) (payload : List UInt8) :
    Reacts conn (conn.tryWritePong payload) (writeControl .pong payload .goOn) := by
  rw [tryWritePong, if_neg (not_not.mpr hstate), writeControl]
  split_ifs with hlong
  · rw [buildFrame_oversized rfl hlong]
    rfl
  · rw [buildFrame_control (Nat.not_lt.mp hlong)]
    exact ⟨rfl, rfl⟩

theorem reacts_close (hstate : conn.state ≠ .closing) (frame : Frame) :
    Reacts conn (if frame.payload.length ≥ 2 then
        conn.tryWriteClose (readU16Be frame.payload) (frame.payload.drop 2) (-1)
      else conn.tryWriteClose 1000 [] (-1)) (writeControl .close (closePayload frame) .stop) := by
  have hpayload : (if frame.payload.length ≥ 2 then
      conn.tryWriteClose (readU16Be frame.payload) (frame.payload.drop 2) (-1)
      else conn.tryWriteClose 1000 [] (-1)) =
      match buildFrame (frameArgs .close (closePayload frame)) with
      | .error _ => ⟨{ conn with state := .closing }, [], .throws⟩
      | .ok built => ⟨{ conn with state := .closing }.writeRawFrame built, [], .returns (-1)⟩ := by
    rw [closePayload]
    split_ifs with htwo
    · rw [tryWriteClose, if_neg hstate, appendU16Be_readU16Be htwo]
    · rw [tryWriteClose, if_neg hstate, List.append_nil]
  rw [hpayload, writeControl]
  split_ifs with hlong
  · rw [buildFrame_oversized rfl hlong]
    rfl
  · rw [buildFrame_control (Nat.not_lt.mp hlong)]
    rfl

/-- One frame, if the queue has places for what it starts. -/
theorem reacts_onFrame (conn : HttpWebsocketConnectionIO) (hroom : Room places frame) :
    Reacts conn (conn.onFrame places frame) (serverOnFrame conn.state frame) := by
  rw [onFrame, serverOnFrame]
  split_ifs with htext hbinary hping hopen hpong hclose hstate htwo
  · rw [startOnMessage_of_room (hroom htext)]
    exact ⟨rfl, rfl⟩
  · exact ⟨rfl, rfl⟩
  · exact reacts_pong hopen frame.payload
  · rw [tryWritePong, if_pos hopen]
    exact ⟨rfl, rfl⟩
  · exact ⟨rfl, rfl⟩
  · have h := reacts_close hstate frame
    rwa [if_pos htwo] at h
  · have h := reacts_close hstate frame
    rwa [if_neg htwo] at h
  · rfl
  · exact ⟨rfl, rfl⟩

/-- What a loop gives. -/
def ofLoop (conn : HttpWebsocketConnectionIO) (loop : List SessionEvent × LoopState) :
    Option Handled :=
  match loop.2 with
  | .terminated => none
  | .running => some ⟨(conn.onEvents loop.1).1, (conn.onEvents loop.1).2, 0⟩
  | .stopped => some ⟨(conn.onEvents loop.1).1, (conn.onEvents loop.1).2, -1⟩

theorem ofLoop_append (conn : HttpWebsocketConnectionIO) (events : List SessionEvent)
    (loop : List SessionEvent × LoopState) :
    conn.ofLoop (events ++ loop.1, loop.2) = ((conn.onEvents events).1.ofLoop loop).map fun later =>
      { later with effects := (conn.onEvents events).2 ++ later.effects } := by
  obtain ⟨events', state⟩ := loop
  rw [ofLoop, ofLoop]
  dsimp only
  rw [onEvents_append]
  cases state <;> rfl

theorem handled_prepend (effects : List ConnectionEffect) (left : Left) :
    Left.handled { left with effects := effects ++ left.effects } =
      left.handled.map fun later => { later with effects := effects ++ later.effects } := by
  rw [Left.handled, Left.handled]
  cases left.ending <;> rfl

/-- The loop, if the queue has places for its text frames. -/
theorem handled_serveFrames (conn : HttpWebsocketConnectionIO)
    (hplaces : 2 * messages frames ≤ places) :
    (conn.serveFrames places frames).handled =
      conn.ofLoop (loopFrames (serverOnFrame conn.state) frames) := by
  induction frames generalizing conn places with
  | nil => rfl
  | cons frame frames ih =>
    have hroom := room_cons hplaces
    have hreacts := reacts_onFrame conn hroom
    rw [serveFrames, loopFrames]
    dsimp only
    cases hreaction : serverOnFrame conn.state frame with
    | goOn events =>
      have hclose : frame.opcode ≠ Opcode.close.code := by
        intro hclose
        rw [serverOnFrame, hclose, if_neg (by decide), if_neg (by decide), if_neg (by decide),
          if_neg (by decide), if_pos rfl, writeControl] at hreaction
        split_ifs at hreaction
      rw [hreaction] at hreacts
      obtain ⟨hframe, hstate⟩ := hreacts
      have hleft := (places_cons conn hclose hroom).mp hplaces
      rw [if_pos (congrArg Left.ending hframe), handled_prepend, ih _ hleft, hframe, hstate,
        ofLoop_append]
    | stop events =>
      rw [hreaction] at hreacts
      have hne : (conn.onFrame places frame).ending ≠ .returns 0 := by
        rw [hreacts]
        intro h
        cases h
      rw [if_neg hne, hreacts]
      rfl
    | throws =>
      rw [hreaction] at hreacts
      have hne : (conn.onFrame places frame).ending ≠ .returns 0 := by
        rw [hreacts]
        intro h
        cases h
      rw [if_neg hne, Left.handled, hreacts]
      rfl

variable {data : List UInt8}

theorem remaining_pending (conn : HttpWebsocketConnectionIO) (data : List UInt8) :
    (conn.frameParser.feed data).remaining = conn.pending data :=
  WebSocketFrameParser.remaining_feed _ _

theorem serveBytes_of_wraps (h : Wraps (restOf (conn.pending data))) :
    (conn.serveBytes places data).ending = .throws := by
  rw [← remaining_pending] at h
  have hnone := WebSocketFrameParser.parseFrames_of_wraps h
  rw [serveBytes]
  split
  · rfl
  · next frames parser hparse =>
    rw [hparse] at hnone
    cases hnone

/-- What a call parses goes through the loop. -/
theorem serveBytes_of_not_wraps (h : ¬ Wraps (restOf (conn.pending data))) (places : ℕ) :
    ∃ parser, (conn.frameParser.feed data).parseFrames =
        (some (framesOf (conn.pending data)), parser) ∧
      conn.serveBytes places data =
        { conn with frameParser := parser }.serveFrames places
          (framesOf (conn.pending data)) := by
  rw [← remaining_pending] at h ⊢
  have hsome := WebSocketFrameParser.parseFrames_of_not_wraps h
  rw [serveBytes]
  split
  · next parser hparse =>
    rw [hparse] at hsome
    cases hsome
  · next frames parser hparse =>
    rw [hparse] at hsome
    obtain rfl := Option.some.inj hsome
    exact ⟨parser, hparse, rfl⟩

/-- **`handle_websocket_bytes` is the one of the other handlers**, if the queue has places for the
text frames of the call. -/
theorem handleWebsocketBytes_eq (conn : HttpWebsocketConnectionIO) (data : List UInt8)
    (hplaces : 2 * messages (framesOf (conn.pending data)) ≤ places) :
    conn.handleWebsocketBytes data = (conn.serveBytes places data).handled := by
  rw [handleWebsocketBytes]
  by_cases hwraps : Wraps (restOf (conn.pending data))
  · have hnone := hwraps
    rw [← remaining_pending] at hnone
    rw [Left.handled, serveBytes_of_wraps hwraps]
    split
    · rfl
    · next frames parser hparse =>
      have hparsed := WebSocketFrameParser.parseFrames_of_wraps hnone
      rw [hparse] at hparsed
      cases hparsed
  · obtain ⟨parser, hparse, hserve⟩ := serveBytes_of_not_wraps hwraps places
    rw [hparse, hserve]
    exact (handled_serveFrames { conn with frameParser := parser } hplaces).symm

/-! ## The calls -/

theorem refused_of_closing (hstate : conn.state = .closing)
    (hplaces : 2 * messages frames ≤ places) : (conn.serveFrames places frames).Refused := by
  obtain ⟨hconn, hzero | hone⟩ := serveFrames_closing hstate hplaces
  · exact .inr ⟨hzero, by rw [hconn, hstate]⟩
  · exact .inl hone

/-- A beginning of the frames needs no more places. -/
theorem messages_prefix {front : List Frame} (hpre : front <+: frames) :
    messages front ≤ messages frames := by
  induction frames generalizing front with
  | nil =>
    obtain rfl := List.prefix_nil.mp hpre
    exact Nat.le_refl _
  | cons first frames ih =>
    cases front with
    | nil => exact Nat.zero_le _
    | cons f front =>
      obtain ⟨rfl, hrest⟩ := List.cons_prefix_cons.mp hpre
      by_cases hclose : f.opcode = Opcode.close.code
      · rw [messages_close hclose, messages_close hclose]
      · have hle := ih hrest
        rw [messages_cons hclose, messages_cons hclose]
        omega

/-- A call whose text frames find no places. -/
theorem not_sound_of_overrun (hwraps : ¬ Wraps (restOf (conn.pending data)))
    (h : conn.state = .closing ∨ (conn.state = .webSocketOpen ∧
      ∀ frame ∈ reached (framesOf (conn.pending data)), ¬ frame.Oversized))
    (hplaces : places < 2 * messages (framesOf (conn.pending data))) :
    ¬ conn.Sound (.bytes places data) := by
  intro hsound
  obtain ⟨parser, -, hserve⟩ := serveBytes_of_not_wraps hwraps places
  have hends := hsound.returns
  rw [serve, hserve,
    @serveFrames_overrun { conn with frameParser := parser } places _ h hplaces] at hends
  exact hends.elim nofun nofun

/-- Bytes on a connection that is closing. -/
theorem sound_bytes_closing (hstate : conn.state = .closing)
    (h : ¬ Wraps (restOf (conn.pending data))) :
    conn.Sound (.bytes places data) ↔ 2 * messages (framesOf (conn.pending data)) ≤ places := by
  obtain ⟨parser, -, hserve⟩ := serveBytes_of_not_wraps h places
  constructor
  · intro hsound
    exact Nat.not_lt.mp fun hlt => not_sound_of_overrun h (.inl hstate) hlt hsound
  · intro hplaces
    refine ⟨?_, ⟨fun front frame hpre _ => ?_, fun _ => ?_⟩, fun _ => .inl hstate⟩
    · rw [serve, hserve]
      exact (@serveFrames_closing { conn with frameParser := parser } places _ hstate hplaces).2
    · have hle := messages_prefix hpre
      exact refused_of_closing hstate (by omega)
    · rw [hserve]
      exact @refused_of_closing { conn with frameParser := parser } places _ hstate hplaces

/-- Bytes on an open connection. -/
theorem sound_bytes_open (hstate : conn.state = .webSocketOpen)
    (h : ¬ Wraps (restOf (conn.pending data))) :
    conn.Sound (.bytes places data) ↔ 2 * messages (framesOf (conn.pending data)) ≤ places ∧
      (∀ frame ∈ reached (framesOf (conn.pending data)), ¬ frame.Oversized) ∧
      ((∃ frame ∈ framesOf (conn.pending data), frame.opcode = Opcode.close.code) ∨
        ¬ Absurd (restOf (conn.pending data))) := by
  obtain ⟨parser, -, hserve⟩ := serveBytes_of_not_wraps h places
  have hfits := @serveFrames_fits { conn with frameParser := parser } places
    (framesOf (conn.pending data)) hstate
  constructor
  · intro hsound
    have hreached : ∀ frame ∈ reached (framesOf (conn.pending data)), ¬ frame.Oversized := by
      by_contra hnot
      obtain ⟨frame, hframe, hlong⟩ := not_forall₂.mp hnot
      obtain ⟨front, last, hpre, hover, hrefused⟩ :=
        exists_not_refused hstate ⟨frame, hframe, not_not.mp hlong⟩ places
      exact hrefused (hsound.refuses.1 front last hpre hover)
    have hplaces : 2 * messages (framesOf (conn.pending data)) ≤ places := Nat.not_lt.mp fun hlt =>
      not_sound_of_overrun h (.inr ⟨hstate, hreached⟩) hlt hsound
    refine ⟨hplaces, hreached, or_iff_not_imp_left.mpr fun hclose habsurd => ?_⟩
    have hrefused := hsound.refuses.2 habsurd
    have hend := hfits hreached hplaces
    rw [if_neg hclose, ← hserve] at hend
    rw [Left.Refused, hend.1, hend.2] at hrefused
    revert hrefused
    decide
  · rintro ⟨hplaces, hreached, hlength⟩
    have hend := hfits hreached hplaces
    have hrefuses := refused_of_fits hstate hreached hplaces
    rw [← hserve] at hend
    by_cases hclose : ∃ frame ∈ framesOf (conn.pending data), frame.opcode = Opcode.close.code
    · rw [if_pos hclose] at hend
      exact ⟨.inr hend.1, ⟨hrefuses, fun _ => .inl hend.1⟩, fun _ => .inr hend.2.2⟩
    · rw [if_neg hclose] at hend
      refine ⟨.inl hend.1, ⟨hrefuses,
        fun habsurd => absurd habsurd (hlength.resolve_left hclose)⟩, fun hclosing => ?_⟩
      have hopen : (conn.serveBytes places data).conn.state = .closing := hclosing
      rw [hend.2] at hopen
      cases hopen

theorem sound_bytes_iff (hopen : conn.state ≠ .waitingHttpUpgrade) (places : ℕ)
    (data : List UInt8) :
    conn.Sound (.bytes places data) ↔ conn.Admissible (.bytes places data) := by
  by_cases hwraps : Wraps (restOf (conn.pending data))
  · refine iff_of_false (fun hsound => ?_) fun hadm => hadm.1 hwraps
    have hends := hsound.returns
    rw [serve, serveBytes_of_wraps hwraps] at hends
    exact hends.elim nofun nofun
  · rw [Admissible, and_iff_right hwraps]
    cases hstate : conn.state with
    | waitingHttpUpgrade => exact absurd hstate hopen
    | webSocketOpen =>
      have hne : ¬ WebsocketState.webSocketOpen = .closing := nofun
      rw [sound_bytes_open hstate hwraps, or_iff_right hne]
    | closing =>
      rw [sound_bytes_closing hstate hwraps]
      exact (and_iff_left (.inl rfl)).symm

/-- A rejection that is sent. -/
theorem sound_onConnect_rejected {result : Except (List UInt8) Bool}
    (hcall : conn.serve (.onConnect result) = conn.tryWriteClose 1008 reason 0)
    (hstate : conn.state ≠ .closing) (h : reason.length ≤ 123) : conn.Sound (.onConnect result) := by
  obtain ⟨hend, hclose⟩ := @tryWriteClose_short conn 0 1008 reason hstate h
  rw [← hcall] at hend hclose
  refine ⟨.inl hend, ?_, fun _ => .inr hclose.2⟩
  cases result with
  | ok accepted => trivial
  | error text => exact fun _ _ => .inr ⟨hend, hclose.1⟩

/-- Nothing is written. -/
theorem sound_onConnect_silent {result : Except (List UInt8) Bool}
    (hcall : conn.serve (.onConnect result) = ⟨conn, [], .returns 0⟩)
    (h : conn.state = .closing ∨ ∀ reason, result = .error reason → conn.hasCallbacks = false) :
    conn.Sound (.onConnect result) := by
  refine ⟨?_, ?_, ?_⟩
  · rw [hcall]
    exact .inl rfl
  · cases result with
    | ok accepted => trivial
    | error reason =>
      intro hcallbacks _
      have hleft : conn.runOnConnect (.error reason) = ⟨conn, [], .returns 0⟩ := hcall
      have hclosing : conn.state = .closing := h.resolve_right fun hnone =>
        Bool.false_ne_true ((hnone reason rfl).symm.trans hcallbacks)
      rw [hleft]
      exact .inr ⟨rfl, hclosing⟩
  · rw [hcall]
    exact .inl

theorem sound_onConnect_iff (result : Except (List UInt8) Bool) :
    conn.Sound (.onConnect result) ↔ conn.Admissible (.onConnect result) := by
  by_cases hcallbacks : conn.hasCallbacks = true
  · have hserve : conn.serve (.onConnect result) = match result with
        | .ok true => ⟨conn, [], .returns 0⟩
        | .ok false => conn.tryWriteClose 1008 (text "Connection rejected by server") 0
        | .error reason => conn.tryWriteClose 1008 reason 0 := if_pos hcallbacks
    rw [Admissible, or_iff_right (Bool.not_eq_false _ ▸ hcallbacks)]
    by_cases hstate : conn.state = .closing
    · refine iff_of_true (sound_onConnect_silent ?_ (.inl hstate)) (.inl hstate)
      rw [hserve]
      split
      · rfl
      · exact tryWriteClose_closing hstate
      · exact tryWriteClose_closing hstate
    · rw [or_iff_right hstate]
      match result with
      | .ok true => exact iff_of_true (sound_onConnect_silent hserve (.inr nofun)) nofun
      | .ok false =>
        exact iff_of_true (sound_onConnect_rejected hserve hstate (by decide)) nofun
      | .error reason =>
        constructor
        · rintro hsound _ ⟨⟩
          refine Nat.not_lt.mp fun hlong => ?_
          have hends := hsound.returns
          rw [hserve, tryWriteClose_long hstate hlong] at hends
          exact hends.elim nofun nofun
        · exact fun h => sound_onConnect_rejected hserve hstate (h reason rfl)
  · have hnone := Bool.eq_false_iff.mpr hcallbacks
    have hcall : conn.serve (.onConnect result) = ⟨conn, [], .returns 0⟩ := if_neg hcallbacks
    exact iff_of_true (sound_onConnect_silent hcall (.inr fun _ _ => hnone)) (.inl hnone)

/-- **A call is sound** if and only if it is admissible. -/
theorem sound_call_iff (hopen : conn.state ≠ .waitingHttpUpgrade) (call : ConnectionCall) :
    conn.Sound call ↔ conn.Admissible call := by
  cases call with
  | bytes places data => exact sound_bytes_iff hopen places data
  | onConnect result => exact sound_onConnect_iff result

/-! ## Runs -/

theorem tryWriteClose_open (h : conn.state ≠ .waitingHttpUpgrade) :
    (conn.tryWriteClose closeCode reason code).conn.state ≠ .waitingHttpUpgrade := by
  rw [tryWriteClose]
  split_ifs
  · exact h
  · split <;> exact nofun

theorem onFrame_open (h : conn.state ≠ .waitingHttpUpgrade) (places : ℕ) (frame : Frame) :
    (conn.onFrame places frame).conn.state ≠ .waitingHttpUpgrade := by
  have hpong : (conn.tryWritePong frame.payload).conn.state = conn.state := by
    rw [tryWritePong]
    split_ifs
    · rfl
    · split <;> rfl
  have hstart : (conn.startOnMessage places frame.payload).conn.state = conn.state := by
    rw [startOnMessage]
    split_ifs <;> rfl
  rw [onFrame]
  split_ifs <;>
    first | exact h | exact hstart.trans_ne h | exact hpong.trans_ne h | exact tryWriteClose_open h

theorem serveFrames_open (h : conn.state ≠ .waitingHttpUpgrade) (places : ℕ)
    (frames : List Frame) :
    (conn.serveFrames places frames).conn.state ≠ .waitingHttpUpgrade := by
  induction frames generalizing conn places with
  | nil => exact h
  | cons frame frames ih =>
    rw [serveFrames_cons.2]
    split_ifs
    · exact ih (onFrame_open h places frame) _
    · exact onFrame_open h places frame

/-- **No call takes the connection back in front of its upgrade.** -/
theorem serve_open (h : conn.state ≠ .waitingHttpUpgrade) (call : ConnectionCall) :
    (conn.serve call).conn.state ≠ .waitingHttpUpgrade := by
  cases call with
  | bytes places data =>
    rw [serve, serveBytes]
    split
    · exact h
    · next frames parser hparse =>
      exact @serveFrames_open { conn with frameParser := parser } h places frames
  | onConnect result =>
    rw [serve]
    unfold runOnConnect
    split_ifs
    · split
      · exact h
      · exact tryWriteClose_open h
      · exact tryWriteClose_open h
    · exact h

theorem trace_open (h : conn.state ≠ .waitingHttpUpgrade) (calls : List ConnectionCall) :
    ∀ step ∈ conn.trace calls, step.1.state ≠ .waitingHttpUpgrade := by
  induction calls generalizing conn with
  | nil => exact fun step hstep => absurd hstep List.not_mem_nil
  | cons call calls ih =>
    rw [trace, List.forall_mem_cons]
    refine ⟨h, fun step hstep => ?_⟩
    split_ifs at hstep
    · exact ih (serve_open h call) step hstep
    · cases hstep

/-- **All calls of an open connection are sound** if and only if all are admissible. -/
theorem sound_iff (h : conn.state ≠ .waitingHttpUpgrade) (calls : List ConnectionCall) :
    (∀ step ∈ conn.trace calls, step.1.Sound step.2) ↔
      ∀ step ∈ conn.trace calls, step.1.Admissible step.2 :=
  forall₂_congr fun step hstep => sound_call_iff (trace_open h calls step hstep) step.2

/-- A connection that has been upgraded. -/
def upgraded : HttpWebsocketConnectionIO := (fresh.establish 7).opened

theorem sound_iff_upgraded :
    (∀ step ∈ upgraded.trace [.bytes Coroutine.maxTaskInfo [0x81, 0, 0x89, 0], .onConnect (.ok false)],
      step.1.Sound step.2) ↔
        ∀ step ∈ upgraded.trace [.bytes Coroutine.maxTaskInfo [0x81, 0, 0x89, 0], .onConnect (.ok false)],
          step.1.Admissible step.2 :=
  sound_iff (by decide) _

/-- A ping of 126 bytes. -/
def longPing : List UInt8 := 0x89 :: 126 :: 0 :: 126 :: List.replicate 126 0

/-- The ping leaves the handler as an exception; a reason of 124 bytes does so behind the change of
the state, and no close frame is written; and a text frame that finds one free place ends the
process. -/
theorem upgraded_unsound :
    upgraded.state = .webSocketOpen ∧
      ¬ (∀ step ∈ upgraded.trace [.bytes Coroutine.maxTaskInfo longPing], step.1.Sound step.2) ∧
      ¬ (∀ step ∈ upgraded.trace [.onConnect (.error (List.replicate 124 65))],
        step.1.Sound step.2) ∧
      ¬ (∀ step ∈ upgraded.trace [.bytes 1 [0x81, 0]], step.1.Sound step.2) := by
  have hping : (upgraded.serve (.bytes Coroutine.maxTaskInfo longPing)).ending = .throws := by
    decide +kernel
  have htext : (upgraded.serve (.bytes 1 [0x81, 0])).ending = .throws := by
    decide +kernel
  have hcall : ∀ reason, upgraded.serve (.onConnect (.error reason)) =
      upgraded.tryWriteClose 1008 reason 0 := fun _ => rfl
  have hreason : (upgraded.serve (.onConnect (.error (List.replicate 124 65)))).ending = .throws := by
    have hlong : 123 < (List.replicate 124 (65 : UInt8)).length := by
      rw [List.length_replicate]
      decide
    rw [hcall, tryWriteClose_long (by decide) hlong]
  refine ⟨rfl, fun hsound => ?_, fun hsound => ?_, fun hsound => ?_⟩
  · have hends := (hsound _ List.mem_cons_self).returns
    rw [hping] at hends
    exact hends.elim nofun nofun
  · have hends := (hsound _ List.mem_cons_self).returns
    rw [hreason] at hends
    exact hends.elim nofun nofun
  · have hends := (hsound _ List.mem_cons_self).returns
    rw [htext] at hends
    exact hends.elim nofun nofun

end HttpWebsocketConnectionIO

end TradingEngine
