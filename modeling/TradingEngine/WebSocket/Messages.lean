import TradingEngine.WebSocket.RoundTrip
import TradingEngine.WebSocket.Session

/-!
# WebSocket/Messages — messages that are sent in fragments

A message goes out as a text frame, continuation frames and a last one with `fin`, and control
frames may stand in between.  Neither loop looks at `fin` or at a continuation frame, so the
callback gets the first fragment of each message.
-/

namespace TradingEngine

namespace WebSocket

/-- A payload as it is sent: with or without a mask. -/
structure Sent where
  payload : List UInt8
  mask : Bool
  key : MaskingKey

/-- The frame of a payload. -/
def Sent.args (sent : Sent) (opcode : Opcode) (fin : Bool) : FrameArgs :=
  ⟨opcode, sent.payload, fin, sent.mask, sent.key⟩

/-- A ping or a pong. -/
structure Control where
  isPing : Bool
  sent : Sent

def Control.args (control : Control) : FrameArgs :=
  control.sent.args (if control.isPing then .ping else .pong) true

/-- A fragment after the first, with the control frames in front of it. -/
structure Fragment where
  controls : List Control
  sent : Sent

/-- A message in fragments: a text frame, continuation frames, and the last one. -/
structure Fragmented where
  first : Sent
  middle : List Fragment
  last : Fragment

namespace Fragmented

/-- The fragments after the first. -/
def rest (message : Fragmented) : List Fragment := message.middle ++ [message.last]

/-- The text of the whole message. -/
def text (message : Fragmented) : List UInt8 :=
  message.first.payload ++ (message.rest.map (·.sent.payload)).flatten

/-- The frames of a fragment after the first. -/
def fragmentArgs (fin : Bool) (fragment : Fragment) : List FrameArgs :=
  fragment.controls.map Control.args ++ [fragment.sent.args .continuation fin]

/-- The frames of the message. -/
def args (message : Fragmented) : List FrameArgs :=
  message.first.args .text false :: (message.middle.flatMap (fragmentArgs false) ++
    fragmentArgs true message.last)

end Fragmented

variable {messages : List Fragmented} {builts reads : List (List UInt8)}

/-- The frames of some messages. -/
def sentArgs (messages : List Fragmented) : List FrameArgs := messages.flatMap Fragmented.args

/-! ## What a loop calls -/

/-- A loop that gives text frames to the callback, and goes on over the other frames of a
message. -/
structure GivesText (onFrame : Frame → Reaction) : Prop where
  text : ∀ sent : Sent, ∀ fin, onFrame (sent.args .text fin).frame = .goOn [.onMessage sent.payload]
  continuation : ∀ sent : Sent, ∀ fin, onFrame (sent.args .continuation fin).frame = .goOn []
  control : ∀ control : Control, control.sent.payload.length ≤ 125 →
    ∃ events, WebSocket.messages events = [] ∧ onFrame control.args.frame = .goOn events

theorem givesText_client : GivesText clientOnFrame where
  text _ _ := rfl
  continuation _ _ := rfl
  control control h := by
    obtain ⟨isPing, sent⟩ := control
    cases isPing with
    | true => exact ⟨[.write .pong sent.payload], rfl, if_neg (Nat.not_lt.mpr h)⟩
    | false => exact ⟨[], rfl, rfl⟩

theorem givesText_server (state : WebsocketState) : GivesText (serverOnFrame state) where
  text _ _ := rfl
  continuation _ _ := rfl
  control control h := by
    obtain ⟨isPing, sent⟩ := control
    cases isPing with
    | true =>
      by_cases hopen : state = .webSocketOpen
      · refine ⟨[.write .pong sent.payload], rfl, ?_⟩
        exact (if_pos hopen).trans (if_neg (Nat.not_lt.mpr h))
      · exact ⟨[], rfl, if_neg hopen⟩
    | false => exact ⟨[], rfl, rfl⟩

/-- The loop goes on over the frames, and calls the callback with the texts. -/
structure Calls (onFrame : Frame → Reaction) (frames : List Frame) (texts : List (List UInt8)) :
    Prop where
  running : (loopFrames onFrame frames).2 = .running
  messages : WebSocket.messages (loopFrames onFrame frames).1 = texts

variable {onFrame : Frame → Reaction} {frames frames' : List Frame}
  {texts texts' : List (List UInt8)}

theorem Calls.append (h : Calls onFrame frames texts) (h' : Calls onFrame frames' texts') :
    Calls onFrame (frames ++ frames') (texts ++ texts') where
  running := by rw [loopFrames_append, if_pos h.running, h'.running]
  messages := by
    rw [loopFrames_append, if_pos h.running, messages_append, h.messages, h'.messages]

theorem Calls.of_goOn {frame : Frame} {events : List SessionEvent}
    (h : onFrame frame = .goOn events) :
    Calls onFrame [frame] (WebSocket.messages events) where
  running := by rw [loopFrames, h]; rfl
  messages := by
    rw [loopFrames, h]
    exact congrArg WebSocket.messages (List.append_nil events)

/-- Frames that call nothing, one after the other. -/
theorem Calls.flatMap_nil {ι : Type*} {l : List ι} {f : ι → List Frame}
    (h : ∀ x ∈ l, Calls onFrame (f x) []) : Calls onFrame (l.flatMap f) [] := by
  induction l with
  | nil => exact ⟨rfl, rfl⟩
  | cons x l ih =>
    rw [List.flatMap_cons]
    exact (h x List.mem_cons_self).append (ih fun y hy => h y (List.mem_cons_of_mem x hy))

/-- The control frames of a message are no longer than they may be. -/
def Fragmented.Allowed (message : Fragmented) : Prop :=
  ∀ fragment ∈ message.rest, ∀ control ∈ fragment.controls, control.sent.payload.length ≤ 125

theorem calls_fragment (h : GivesText onFrame) (fin : Bool) {fragment : Fragment}
    (hcontrols : ∀ control ∈ fragment.controls, control.sent.payload.length ≤ 125) :
    Calls onFrame ((Fragmented.fragmentArgs fin fragment).map FrameArgs.frame) [] := by
  have hcontrol : Calls onFrame ((fragment.controls.map Control.args).map FrameArgs.frame) [] := by
    rw [List.map_map, ← List.flatMap_singleton' (List.map _ _), List.flatMap_map]
    refine .flatMap_nil fun control hmem => ?_
    obtain ⟨events, hnone, hgoOn⟩ := h.control control (hcontrols control hmem)
    exact hnone ▸ .of_goOn hgoOn
  rw [Fragmented.fragmentArgs, List.map_append]
  exact hcontrol.append (.of_goOn (h.continuation fragment.sent fin))

/-- **A message calls the callback once**, with its first fragment. -/
theorem calls_message (h : GivesText onFrame) {message : Fragmented} (hallowed : message.Allowed) :
    Calls onFrame (message.args.map FrameArgs.frame) [message.first.payload] := by
  have hmiddle : Calls onFrame
      ((message.middle.flatMap (Fragmented.fragmentArgs false)).map FrameArgs.frame) [] := by
    rw [List.map_flatMap]
    exact .flatMap_nil fun fragment hmem =>
      calls_fragment h false (hallowed fragment (List.mem_append_left _ hmem))
  have hlast := calls_fragment h true
    (hallowed message.last (List.mem_append_right _ (List.mem_singleton_self _)))
  have hfirst := Calls.of_goOn (h.text message.first false)
  rw [Fragmented.args, List.map_cons, List.map_append]
  exact hfirst.append (hmiddle.append hlast)

theorem calls_messages (h : GivesText onFrame) (hallowed : ∀ message ∈ messages, message.Allowed) :
    Calls onFrame ((sentArgs messages).map FrameArgs.frame)
      (messages.map (·.first.payload)) := by
  induction messages with
  | nil => exact ⟨rfl, rfl⟩
  | cons message messages ih =>
    rw [sentArgs, List.flatMap_cons, List.map_append]
    exact (calls_message h (hallowed message List.mem_cons_self)).append
      (ih fun message' hmem => hallowed message' (List.mem_cons_of_mem message hmem))

/-! ## The reads -/

theorem exists_built_of_mem {argss : List FrameArgs} {args : FrameArgs}
    (h : List.Forall₂ (fun args built => buildFrame args = .ok built) argss builts)
    (hmem : args ∈ argss) : ∃ built, buildFrame args = .ok built := by
  induction h with
  | nil => exact absurd hmem List.not_mem_nil
  | cons hbuild _ ih =>
    rcases List.mem_cons.mp hmem with heq | hmem
    · exact ⟨_, heq ▸ hbuild⟩
    · exact ih hmem

/-- A control frame that is built is not too long. -/
theorem length_le_of_built {control : Control} {built : List UInt8}
    (h : buildFrame control.args = .ok built) : control.sent.payload.length ≤ 125 := by
  obtain ⟨isPing, sent⟩ := control
  rw [buildFrame] at h
  split_ifs at h with hfin hlength hmax
  have hcontrol : isControlOpcode (if isPing = true then Opcode.ping else Opcode.pong) = true := by
    cases isPing <;> rfl
  exact Nat.not_lt.mp fun hlt => hlength ⟨hcontrol, hlt⟩

/-- The control frames of messages that are built are allowed. -/
theorem allowed_of_built
    (h : List.Forall₂ (fun args built => buildFrame args = .ok built) (sentArgs messages) builts) :
    ∀ message ∈ messages, message.Allowed := by
  intro message hmessage fragment hfragment control hcontrol
  have hargs : ∀ fin, control.args ∈ Fragmented.fragmentArgs fin fragment := fun fin =>
    List.mem_append_left _ (List.mem_map_of_mem hcontrol)
  have hmem : control.args ∈ message.args := by
    rcases List.mem_append.mp hfragment with hmiddle | hlast
    · exact List.mem_cons_of_mem _
        (List.mem_append_left _ (List.mem_flatMap.mpr ⟨fragment, hmiddle, hargs false⟩))
    · rw [List.mem_singleton.mp hlast] at hargs
      exact List.mem_cons_of_mem _ (List.mem_append_right _ (hargs true))
  obtain ⟨built, hbuild⟩ := exists_built_of_mem h (List.mem_flatMap.mpr ⟨message, hmessage, hmem⟩)
  exact length_le_of_built hbuild

/-- The frames that the parser gives, however they are cut into reads. -/
theorem feedPieces_built
    (h : List.Forall₂ (fun args built => buildFrame args = .ok built) (sentArgs messages) builts)
    (hreads : reads.flatten = builts.flatten) :
    (WebSocketFrameParser.clear.feedPieces reads).1 =
      some ((sentArgs messages).map FrameArgs.frame) := by
  obtain ⟨ts, hpath, hbytes, houts⟩ := exists_path_built h
  have hfeed :
      Incremental.Reader.feedAll frameReader false WebSocketFrameParser.clear.remaining reads =
      ⟨false, (sentArgs messages).map FrameArgs.frame, []⟩ := by
    rw [← houts]
    exact Incremental.Reader.feedAll_whole hpath waits_nil (by rw [hreads, hbytes, List.append_nil])
  have hstate : (Incremental.Reader.feedAll frameReader false WebSocketFrameParser.clear.remaining
      reads).state = false := by
    rw [hfeed]
  obtain ⟨hframes, -⟩ := WebSocketFrameParser.feedPieces_eq hstate
  rwa [hfeed] at hframes

/-- **What the callback gets**, however the frames are cut into reads. -/
theorem messages_receiveAll (hgives : GivesText onFrame)
    (h : List.Forall₂ (fun args built => buildFrame args = .ok built) (sentArgs messages) builts)
    (hreads : reads.flatten = builts.flatten) :
    WebSocket.messages (FrameLoop.start.receiveAll onFrame reads) =
      messages.map (·.first.payload) := by
  rw [FrameLoop.start, receiveAll_eq (feedPieces_built h hreads)]
  exact (calls_messages hgives (allowed_of_built h)).messages

/-- The first fragments are the messages when nothing stands behind them. -/
theorem map_first_eq_map_text :
    messages.map (·.first.payload) = messages.map Fragmented.text ↔
      ∀ message ∈ messages, ∀ fragment ∈ message.rest, fragment.sent.payload = [] := by
  have hone : ∀ message : Fragmented, message.first.payload = message.text ↔
      ∀ fragment ∈ message.rest, fragment.sent.payload = [] := by
    intro message
    rw [Fragmented.text, List.self_eq_append_right, List.flatten_eq_nil_iff, List.forall_mem_map]
  rw [List.map_inj_left]
  exact forall₂_congr fun message _ => hone message

/-- **The callback of the server gets as many texts as there are messages** only if the queue has
places for their text frames. -/
theorem hasPlaces_of_length {served : List (ℕ × List UInt8)} (state : WebsocketState)
    (h : List.Forall₂ (fun args built => buildFrame args = .ok built) (sentArgs messages) builts)
    (hreads : (served.map (·.2)).flatten = builts.flatten)
    (hlength : (WebSocket.messages (serverReceive state served)).length = messages.length) :
    HasPlaces .clear served := by
  by_contra hfull
  have hcalls := calls_messages (givesText_server state) (allowed_of_built h)
  have hgo := goesOn_of_running hcalls.running
  have htexts := (length_messages_loopFrames hgo).1
  rw [hcalls.messages, List.length_map] at htexts
  have hlt := serveAll_overrun (feedPieces_built h hreads) hgo hfull
  rw [← htexts, ← hlength] at hlt
  exact Nat.lt_irrefl _ hlt

/-- **When the callback gets the messages**: on either side, exactly when every fragment after the
first is empty, and on the server the queue has places for the text frames of each read. -/
theorem messages_iff_restEmpty {served : List (ℕ × List UInt8)} (state : WebsocketState)
    (h : List.Forall₂ (fun args built => buildFrame args = .ok built) (sentArgs messages) builts)
    (hreads : reads.flatten = builts.flatten)
    (hserved : (served.map (·.2)).flatten = builts.flatten) :
    (WebSocket.messages (clientReceive reads) = messages.map Fragmented.text ↔
      ∀ message ∈ messages, ∀ fragment ∈ message.rest, fragment.sent.payload = []) ∧
    (WebSocket.messages (serverReceive state served) = messages.map Fragmented.text ↔
      (∀ message ∈ messages, ∀ fragment ∈ message.rest, fragment.sent.payload = []) ∧
        HasPlaces .clear served) := by
  constructor
  · rw [clientReceive, messages_receiveAll givesText_client h hreads, map_first_eq_map_text]
  · have hgets : HasPlaces .clear served →
        WebSocket.messages (serverReceive state served) = messages.map (·.first.payload) := by
      intro hplaces
      have hserve : serverReceive state served = _ := serveAll_eq hplaces
      rw [hserve]
      exact messages_receiveAll (givesText_server state) h hserved
    constructor
    · intro htexts
      have hplaces : HasPlaces .clear served :=
        hasPlaces_of_length state h hserved (by rw [htexts, List.length_map])
      exact ⟨map_first_eq_map_text.mp ((hgets hplaces).symm.trans htexts), hplaces⟩
    · rintro ⟨hempty, hplaces⟩
      exact (hgets hplaces).trans (map_first_eq_map_text.mpr hempty)

/-- "hi" in one fragment, and an empty last one behind a ping. -/
def hiInFirst : Fragmented where
  first := ⟨[104, 105], false, fun _ => 0⟩
  middle := []
  last := ⟨[⟨true, [], false, fun _ => 0⟩], [], false, fun _ => 0⟩

theorem hiInFirst_built :
    List.Forall₂ (fun args built => buildFrame args = .ok built) (sentArgs [hiInFirst])
      [[1, 2, 104, 105], [0x89, 0], [0x80, 0]] := .cons rfl (.cons rfl (.cons rfl .nil))

theorem hiInFirst_received :
    (WebSocket.messages (clientReceive [[1, 2, 104], [105, 0x89, 0, 0x80], [0]]) =
        [hiInFirst].map Fragmented.text ↔
      ∀ message ∈ [hiInFirst], ∀ fragment ∈ message.rest, fragment.sent.payload = []) ∧
    (WebSocket.messages (serverReceive .webSocketOpen
        [(200, [1, 2, 104]), (200, [105, 0x89, 0, 0x80]), (2, [0])]) =
        [hiInFirst].map Fragmented.text ↔
      (∀ message ∈ [hiInFirst], ∀ fragment ∈ message.rest, fragment.sent.payload = []) ∧
        HasPlaces .clear [(200, [1, 2, 104]), (200, [105, 0x89, 0, 0x80]), (2, [0])]) :=
  messages_iff_restEmpty .webSocketOpen hiInFirst_built rfl rfl

/-- "hi" in two fragments. -/
def hiInTwo : Fragmented where
  first := ⟨[104], false, fun _ => 0⟩
  middle := []
  last := ⟨[], [105], false, fun _ => 0⟩

/-- **A message in two fragments**: the callback gets "h" on both sides. -/
theorem hiInTwo_not_received :
    List.Forall₂ (fun args built => buildFrame args = .ok built) (sentArgs [hiInTwo])
      [[1, 1, 104], [0x80, 1, 105]] ∧
    WebSocket.messages (clientReceive [[1, 1, 104, 0x80, 1, 105]]) ≠ [hiInTwo].map Fragmented.text ∧
    WebSocket.messages (serverReceive .webSocketOpen [(200, [1, 1, 104, 0x80, 1, 105])]) ≠
      [hiInTwo].map Fragmented.text :=
  ⟨.cons rfl (.cons rfl .nil), by decide, by decide⟩

end WebSocket

end TradingEngine
