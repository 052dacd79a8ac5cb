import TradingEngine.Socket.WriteStream
import TradingEngine.WebSocket.HandOver

/-!
# WebSocket/Channel — one direction of a WebSocket connection

One end builds frames and gives them to the queueing writer of its socket, which the socket empties
in pieces; the bytes it has taken are on their way; the other end reads them in pieces of its own,
and its loop calls `on_message`.  What the callback has been called with is at every moment the
beginning of the texts that were sent, and all of them when nothing is left on the way.
-/

namespace TradingEngine

open Run Incremental WebSocket

namespace WebSocket

/-- What happens to one direction: a frame is sent, the socket is writable, the sender's state
changes, the receiver reads. -/
inductive ChannelEvent
  | send (args : FrameArgs) (outcome : SocketOutcome)
  | checkToWrite (outcomes : List SocketOutcome)
  | setState (state : IOState)
  | read (n : ℕ)

/-- The sender's socket, the bytes on their way, and the receiver's loop; `frames`, `reads` and
`received` are what was sent, read and handed to the callback so far. -/
structure Channel where
  outgoing : Outgoing
  wire : List UInt8
  loop : FrameLoop
  frames : List FrameArgs
  reads : List (List UInt8)
  received : List (List UInt8)

namespace Channel

variable (writeToSocketIo : WriteToSocketIo) (onFrame : Frame → Reaction)

/-- Both ends are new. -/
def start : Channel := ⟨.start, [], .start, [], [], []⟩

/-- A step of the sender; what the socket takes is on its way. -/
def outgo (s : Channel) (event : OutgoingEvent) : Channel :=
  { s with
    outgoing := Outgoing.step writeToSocketIo s.outgoing event
    wire := s.wire ++ acceptedBytes (Outgoing.calls writeToSocketIo s.outgoing event) }

/-- `write_raw_frame`: nothing is sent where `build_frame` throws. -/
def send (s : Channel) (args : FrameArgs) (outcome : SocketOutcome) : Channel :=
  match buildFrame args with
  | .error _ => s
  | .ok built =>
    { s.outgo writeToSocketIo (.write built outcome) with frames := s.frames ++ [args] }

/-- A read, if there is something to read. -/
def read (s : Channel) (n : ℕ) : Channel :=
  if s.wire.take n = [] then s
  else
    { s with
      wire := s.wire.drop n
      loop := (s.loop.receive onFrame (s.wire.take n)).2
      reads := s.reads ++ [s.wire.take n]
      received := s.received ++ messages (s.loop.receive onFrame (s.wire.take n)).1 }

def step (s : Channel) : ChannelEvent → Channel
  | .send args outcome => s.send writeToSocketIo args outcome
  | .checkToWrite outcomes => s.outgo writeToSocketIo (.checkToWrite outcomes)
  | .setState state => s.outgo writeToSocketIo (.setState state)
  | .read n => s.read onFrame n

/-- A step in which the receiver is the server, and so many places are free in the queue of its event
base whenever it reads. -/
def serverStep (places : ℕ) (s : Channel) : ChannelEvent → Channel
  | .read n =>
    if s.wire.take n = [] then s
    else
      { s with
        wire := s.wire.drop n
        loop := (s.loop.serve .webSocketOpen places (s.wire.take n)).2
        reads := s.reads ++ [s.wire.take n]
        received := s.received ++
          messages (s.loop.serve .webSocketOpen places (s.wire.take n)).1 }
  | event => s.step writeToSocketIo (serverOnFrame .webSocketOpen) event

/-- What the event is to the sender's socket. -/
def toSocket : ChannelEvent → Option OutgoingEvent
  | .send args outcome => (buildFrame args).toOption.map fun built => .write built outcome
  | .checkToWrite outcomes => some (.checkToWrite outcomes)
  | .setState state => some (.setState state)
  | .read _ => none

end Channel

namespace Channel

/-- No call of the sender's socket has an error result: such a connection is closed. -/
def NoError (writeToSocketIo : WriteToSocketIo) (s : Channel) (event : ChannelEvent) : Prop :=
  ∀ e ∈ (toSocket event).toList, Outgoing.NoError writeToSocketIo s.outgoing e

instance (writeToSocketIo : WriteToSocketIo) (s : Channel) (event : ChannelEvent) :
    Decidable (NoError writeToSocketIo s event) := inferInstanceAs (Decidable (∀ e ∈ _, _))

/-- No call of the sender's socket reports 0, and a count that looks like the size is the size. -/
def NeverZero (writeToSocketIo : WriteToSocketIo) (s : Channel) (event : ChannelEvent) : Prop :=
  ∀ e ∈ (toSocket event).toList, Outgoing.NeverZero writeToSocketIo s.outgoing e

instance (writeToSocketIo : WriteToSocketIo) (s : Outgoing) :
    ∀ e, Decidable (Outgoing.NeverZero writeToSocketIo s e)
  | .write _ _ => inferInstanceAs (Decidable (∀ call ∈ _, _ ∧ (_ → _)))
  | .checkToWrite _ | .setState _ => inferInstanceAs (Decidable (∀ call ∈ _, _ ∧ True))

instance (writeToSocketIo : WriteToSocketIo) (s : Channel) (event : ChannelEvent) :
    Decidable (NeverZero writeToSocketIo s event) := inferInstanceAs (Decidable (∀ e ∈ _, _))

/-- The frame is shorter than an `int` counts. -/
def ShortFrame : ChannelEvent → Prop
  | .send args _ => args.out.length < 2 ^ 31
  | _ => True

instance : DecidablePred ShortFrame
  | .send _ _ => inferInstanceAs (Decidable (_ < _))
  | .checkToWrite _ | .setState _ | .read _ => inferInstanceAs (Decidable True)

/-- A read of the server completes no more text frames than half the places that are free. -/
def FewTexts (places : ℕ) (s : Channel) : ChannelEvent → Prop
  | .read n => 2 * textFrames (completed s.loop.parser (s.wire.take n)) ≤ places
  | _ => True

instance (places : ℕ) (s : Channel) : DecidablePred (FewTexts places s)
  | .read _ => inferInstanceAs (Decidable (_ ≤ _))
  | .send _ _ | .checkToWrite _ | .setState _ => inferInstanceAs (Decidable True)

end Channel

/-! ## The texts that are sent -/

/-- The texts of the frames in front of the first close frame. -/
def textsSent (frames : List FrameArgs) : List (List UInt8) :=
  (frames.takeWhile fun args => args.opcode ≠ .close).filterMap fun args =>
    if args.opcode = .text then some args.payload else none

/-- A loop that hands texts to the callback, ends at a close frame and goes on at any other. -/
structure HandsOver (onFrame : Frame → Reaction) : Prop where
  close : ∀ {args built}, buildFrame args = .ok built → args.opcode = .close →
    ∃ events, onFrame args.frame = .stop events ∧ messages events = []
  other : ∀ {args built}, buildFrame args = .ok built → args.opcode ≠ .close →
    ∃ events, onFrame args.frame = .goOn events ∧
      messages events = (if args.opcode = .text then some args.payload else none).toList

theorem handsOver_client : HandsOver clientOnFrame where
  close {args built} _ hclose := by
    obtain ⟨opcode, payload, fin, mask, key⟩ := args
    obtain rfl : opcode = .close := hclose
    exact ⟨[.write .close []], rfl, rfl⟩
  other := SwitchedServer.clientOnFrame_frame

/-- A control frame is built of at most 125 bytes. -/
theorem length_le_of_control {args : FrameArgs} {built : List UInt8}
    (h : buildFrame args = .ok built) (hcontrol : isControlOpcode args.opcode = true) :
    args.payload.length ≤ 125 := by
  rw [buildFrame] at h
  split_ifs at h with _ hlength
  exact Nat.not_lt.mp fun hlt => hlength ⟨hcontrol, hlt⟩

theorem length_closePayload_le {frame : Frame} (h : frame.payload.length ≤ 125) :
    (closePayload frame).length ≤ 125 := by
  rw [closePayload]
  split_ifs
  · exact h
  · decide

theorem handsOver_server : HandsOver (serverOnFrame .webSocketOpen) where
  close {args built} hbuild hclose := by
    obtain ⟨opcode, payload, fin, mask, key⟩ := args
    obtain rfl : opcode = .close := hclose
    have hle : (closePayload (FrameArgs.frame ⟨.close, payload, fin, mask, key⟩)).length ≤ 125 :=
      length_closePayload_le (length_le_of_control hbuild rfl)
    exact ⟨[.write .close _], if_neg (Nat.not_lt.mpr hle), rfl⟩
  other {args built} hbuild hclose := by
    obtain ⟨opcode, payload, fin, mask, key⟩ := args
    cases opcode with
    | text => exact ⟨[.onMessage payload], rfl, rfl⟩
    | ping =>
      exact ⟨[.write .pong payload], if_neg (Nat.not_lt.mpr (length_le_of_control hbuild rfl)), rfl⟩
    | close => exact absurd rfl hclose
    | continuation | binary | pong => exact ⟨[], rfl, rfl⟩

variable {onFrame : Frame → Reaction}

/-- What the loop hands over of frames that are built. -/
theorem messages_loopFrames (h : HandsOver onFrame) {frames : List FrameArgs}
    {builts : List (List UInt8)}
    (hbuilt : List.Forall₂ (fun args built => buildFrame args = .ok built) frames builts) :
    messages (loopFrames onFrame (frames.map FrameArgs.frame)).1 = textsSent frames := by
  induction hbuilt with
  | nil => rfl
  | @cons args built frames builts hargs _ ih =>
    rw [List.map_cons, loopFrames, textsSent]
    by_cases hclose : args.opcode = .close
    · obtain ⟨events, hframe, hevents⟩ := h.close hargs hclose
      rw [hframe, List.takeWhile_cons_of_neg (by simp [hclose])]
      exact hevents
    · obtain ⟨events, hframe, hevents⟩ := h.other hargs hclose
      rw [hframe, List.takeWhile_cons_of_pos (by simp [hclose]), List.filterMap_cons]
      dsimp only
      rw [messages_append, hevents, ih, textsSent]
      split_ifs <;> rfl

/-- Some of the frames hand over some of the messages. -/
theorem messages_loopFrames_of_part {frames frames' : List Frame} (h : frames <+: frames') :
    messages (loopFrames onFrame frames).1 <+: messages (loopFrames onFrame frames').1 := by
  obtain ⟨rest, rfl⟩ := h
  rw [loopFrames_append]
  split_ifs
  · rw [messages_append]
    exact List.prefix_append _ _
  · exact List.prefix_rfl

/-! ## The reads -/

/-- The loop after some reads. -/
def FrameLoop.after (onFrame : Frame → Reaction) (reads : List (List UInt8)) : FrameLoop :=
  reads.foldl (fun loop data => (loop.receive onFrame data).2) .start

theorem receiveAll_append (loop : FrameLoop) (reads : List (List UInt8)) (data : List UInt8) :
    loop.receiveAll onFrame (reads ++ [data]) = loop.receiveAll onFrame reads ++
      ((reads.foldl (fun loop data => (loop.receive onFrame data).2) loop).receive onFrame
        data).1 := by
  induction reads generalizing loop with
  | nil => exact List.append_nil _
  | cons first reads ih =>
    rw [List.cons_append, FrameLoop.receiveAll, ih, FrameLoop.receiveAll, List.append_assoc]
    rfl

/-- **What the reads of a part of the stream hand over**: some of the texts, and all of them where
the part is the whole stream. -/
theorem messages_receiveAll_of_prefix (h : HandsOver onFrame) {frames : List FrameArgs}
    {builts reads : List (List UInt8)}
    (hbuilt : List.Forall₂ (fun args built => buildFrame args = .ok built) frames builts)
    (hreads : reads.flatten <+: builts.flatten) :
    messages (FrameLoop.start.receiveAll onFrame reads) <+: textsSent frames ∧
      (reads.flatten = builts.flatten →
        messages (FrameLoop.start.receiveAll onFrame reads) = textsSent frames) := by
  obtain ⟨ts, hpath, hbytes, houts⟩ := exists_path_built hbuilt
  have hpre : [] ++ reads.flatten <+: Reader.bytes ts ++ [] := by rwa [List.append_nil, hbytes]
  obtain ⟨done, todo, rfl, htodo, hout, -, -⟩ :=
    Reader.feedAll_path hpath waits_nil hpath.stuck_nil hpre
  have hstate : (frameReader.feedAll false WebSocketFrameParser.clear.remaining reads).state =
      false := state_of_path htodo
  have hframes : (WebSocketFrameParser.clear.feedPieces reads).1 = some _ :=
    (WebSocketFrameParser.feedPieces_eq hstate).1
  have hreceive : FrameLoop.start.receiveAll onFrame reads = _ := receiveAll_eq hframes
  rw [hreceive, ← messages_loopFrames h hbuilt, ← houts]
  refine ⟨messages_loopFrames_of_part ?_, fun hwhole => ?_⟩
  · rw [Reader.outs_append, WebSocketFrameParser.remaining]
    exact hout ▸ List.prefix_append _ _
  · have hfeed : frameReader.feedAll false [] reads = _ :=
      Reader.feedAll_whole hpath waits_nil (by rw [List.append_nil, hwhole, hbytes])
    have hout' : (frameReader.feedAll false [] reads).out = Reader.outs (done ++ todo) := by
      rw [hfeed]
    exact congrArg (fun frames => messages (loopFrames onFrame frames).1) hout'

/-! ## Runs -/

namespace Channel

variable {writeToSocketIo : WriteToSocketIo} {s : Channel}

/-- The frames that were sent are the stream of the sender; what was read and what is on its way is
what the socket has taken; and the receiver has read what it has read. -/
structure Inv (onFrame : Frame → Reaction) (s : Channel) : Prop where
  sent : ∃ builts, List.Forall₂ (fun args built => buildFrame args = .ok built) s.frames builts ∧
    builts.flatten = s.outgoing.written
  kept : s.outgoing.Inv
  flows : s.reads.flatten ++ s.wire = s.outgoing.accepted
  loop : s.loop = .after onFrame s.reads
  received : s.received = messages (FrameLoop.start.receiveAll onFrame s.reads)

theorem inv_start : start.Inv onFrame where
  sent := ⟨[], .nil, rfl⟩
  kept := Outgoing.inv_start
  flows := rfl
  loop := rfl
  received := rfl

theorem accepted_step (s : Outgoing) (event : OutgoingEvent) :
    (Outgoing.step writeToSocketIo s event).accepted =
      s.accepted ++ acceptedBytes (Outgoing.calls writeToSocketIo s event) := by
  cases event with
  | write data outcome => rfl
  | checkToWrite outcomes => rfl
  | setState state => exact (List.append_nil _).symm

/-- The socket has done something, and the frames that were sent are still its stream. -/
theorem Inv.outgo (h : s.Inv onFrame) (hcounts : Outgoing.Counts writeToSocketIo)
    {event : OutgoingEvent} (hkept : Outgoing.StreamKept writeToSocketIo s.outgoing event)
    {frames : List FrameArgs}
    (hsent : ∃ builts, List.Forall₂ (fun args built => buildFrame args = .ok built) frames builts ∧
      builts.flatten = (Outgoing.step writeToSocketIo s.outgoing event).written) :
    Inv onFrame { s.outgo writeToSocketIo event with frames } where
  sent := hsent
  kept := Outgoing.inv_step hcounts h.kept hkept
  flows := by
    rw [Channel.outgo, accepted_step, ← h.flows, List.append_assoc]
  loop := h.loop
  received := h.received

theorem Inv.read (h : s.Inv onFrame) (n : ℕ) : (s.read onFrame n).Inv onFrame := by
  rw [Channel.read]
  split
  · exact h
  · refine ⟨h.sent, h.kept, ?_, ?_, ?_⟩
    · rw [List.flatten_append, List.flatten_singleton, List.append_assoc, List.take_append_drop,
        h.flows]
    · rw [FrameLoop.after, List.foldl_append, ← FrameLoop.after, ← h.loop]
      rfl
    · rw [receiveAll_append, messages_append, ← h.received, h.loop, FrameLoop.after]

/-- **One step**, if the sender's socket keeps its stream. -/
theorem Inv.step (h : s.Inv onFrame) (hcounts : Outgoing.Counts writeToSocketIo)
    {event : ChannelEvent}
    (hkept : ∀ e ∈ (toSocket event).toList, Outgoing.StreamKept writeToSocketIo s.outgoing e) :
    (s.step writeToSocketIo onFrame event).Inv onFrame := by
  cases event with
  | send args outcome =>
    rw [Channel.step, Channel.send]
    cases hbuild : buildFrame args with
    | error message => exact h
    | ok built =>
      obtain ⟨builts, hbuilts, hwritten⟩ := h.sent
      refine h.outgo hcounts (hkept _ (by rw [toSocket, hbuild]; exact .head _))
        ⟨builts ++ [built], ?_, ?_⟩
      · exact List.rel_append hbuilts (.cons hbuild .nil)
      · rw [List.flatten_append, hwritten, List.flatten_singleton]
        rfl
  | checkToWrite outcomes => exact h.outgo hcounts (hkept _ (.head _)) h.sent
  | setState state => exact h.outgo hcounts (hkept _ (.head _)) h.sent
  | read n => exact h.read n

/-- The texts that have arrived, told from the invariant. -/
theorem Inv.delivered (h : s.Inv onFrame) (hover : HandsOver onFrame) :
    s.received <+: textsSent s.frames ∧
      (s.outgoing.object.queued = [] → s.wire = [] → s.received = textsSent s.frames) := by
  obtain ⟨builts, hbuilts, hwritten⟩ := h.sent
  have hstream : s.reads.flatten ++ (s.wire ++ s.outgoing.object.queued) = builts.flatten := by
    rw [← List.append_assoc, h.flows, h.kept.stream, hwritten]
  obtain ⟨hsome, hall⟩ := messages_receiveAll_of_prefix hover hbuilts ⟨_, hstream⟩
  rw [← h.received] at hsome hall
  refine ⟨hsome, fun hqueued hwire => hall ?_⟩
  rw [← hstream, hqueued, hwire, List.append_nil, List.append_nil]

theorem toSocket_short {event : ChannelEvent} (h : ShortFrame event) :
    ∀ e ∈ (toSocket event).toList, Outgoing.ShortData e := by
  intro e he
  cases event with
  | send args outcome =>
    rw [toSocket] at he
    cases hbuild : buildFrame args with
    | error message =>
      rw [hbuild] at he
      exact absurd he List.not_mem_nil
    | ok built =>
      rw [hbuild] at he
      rw [List.mem_singleton.mp he, (buildFrame_ok hbuild).1]
      exact h
  | checkToWrite outcomes =>
    rw [List.mem_singleton.mp he]
    trivial
  | setState state =>
    rw [List.mem_singleton.mp he]
    trivial
  | read n => exact absurd he List.not_mem_nil

/-- What a plain socket keeps: its queue holds short items. -/
theorem shortItems_step (h : s.Inv onFrame)
    (hshort : ShortItems s.outgoing.object.writeQueue) {event : ChannelEvent}
    (hevent : ShortFrame event) :
    ShortItems (s.step rawWriteToSocketIo onFrame event).outgoing.object.writeQueue := by
  have hnext : ∀ e ∈ (toSocket event).toList,
      ShortItems (Outgoing.step rawWriteToSocketIo s.outgoing e).object.writeQueue :=
    fun e he => Outgoing.raw_shortItems h.kept.wf hshort (toSocket_short hevent e he)
  cases event with
  | send args outcome =>
    rw [Channel.step, Channel.send]
    cases hbuild : buildFrame args with
    | error message => exact hshort
    | ok built => exact hnext _ (by rw [toSocket, hbuild]; exact .head _)
  | checkToWrite outcomes => exact hnext _ (.head _)
  | setState state => exact hnext _ (.head _)
  | read n =>
    rw [Channel.step, Channel.read]
    split <;> exact hshort

/-- **A text that is sent over a plain socket is handed over, once and in its place.**  In every run
without socket errors the client's callback has been called with the beginning of the texts that the
server has sent, whatever the pieces the socket took and the client read; and with all of them when
no byte waits or is on its way. -/
theorem delivered_of_run {events : List ChannelEvent}
    (herror : Along (step rawWriteToSocketIo clientOnFrame) (NoError rawWriteToSocketIo) start
      events)
    (hshort : ∀ event ∈ events, ShortFrame event) :
    let s := exec (step rawWriteToSocketIo clientOnFrame) start events
    s.received <+: textsSent s.frames ∧
      (s.outgoing.object.queued = [] → s.wire = [] → s.received = textsSent s.frames) := by
  have hrun := along_and.mpr ⟨herror, along_of_mem hshort⟩
  refine Inv.delivered (exec_of_invariant
    (I := fun s => s.Inv clientOnFrame ∧ ShortItems s.outgoing.object.writeQueue) ?_
    ⟨inv_start, fun _ h => absurd h List.not_mem_nil⟩ hrun).1 handsOver_client
  rintro s event ⟨hinv, hitems⟩ ⟨hno, hframe⟩
  refine ⟨hinv.step raw_counts fun e he => ?_, shortItems_step hinv hitems hframe⟩
  rw [Outgoing.streamKept_iff raw_counts hinv.kept (hno e he)]
  exact Outgoing.raw_neverZero hinv.kept.wf hitems (toSocket_short hframe e he)

/-- `hi` in a frame of four bytes and `!` in one of three, taken and read in pieces. -/
def piecesRun : List ChannelEvent :=
  [.setState .readingAndWriting, .send ⟨.text, [104, 105], true, false, fun _ => 0⟩ (.takes 1),
    .read 1, .send ⟨.text, [33], true, false, fun _ => 0⟩ (.takes 0), .checkToWrite [.takes 0],
    .read 5, .checkToWrite [.takes 9, .takes 9], .read 3, .read 3]

theorem piecesRun_delivered :
    let s := exec (step rawWriteToSocketIo clientOnFrame) start piecesRun
    s.received = [[104, 105], [33]] := by
  have hdelivered : let s := exec (step rawWriteToSocketIo clientOnFrame) start piecesRun
      s.received <+: textsSent s.frames ∧ _ := delivered_of_run (by decide) (by decide)
  exact hdelivered.2 (by decide) (by decide)

/-! ## The way to the server -/

/-- **Where no push is refused** the server's loop is that of `serverOnFrame`. -/
theorem serverStep_eq {places : ℕ} {event : ChannelEvent} (h : FewTexts places s event) :
    s.serverStep writeToSocketIo places event =
      s.step writeToSocketIo (serverOnFrame .webSocketOpen) event := by
  cases event with
  | read n =>
    have hserve : s.loop.serve .webSocketOpen places (s.wire.take n) = _ := serve_eq h
    rw [serverStep, hserve]
    rfl
  | send args outcome => rfl
  | checkToWrite outcomes => rfl
  | setState state => rfl

/-- **The same from the client to the server**, whose socket is a `TlsWrapper`: as long as no write
reports 0, which is how the wrapper says that it would block, and no read of the server completes
more text frames than half the places of its event queue. -/
theorem delivered_of_tls_run {places : ℕ} {events : List ChannelEvent}
    (herror : Along (serverStep tlsWriteToSocketIo places) (NoError tlsWriteToSocketIo) start events)
    (hzero : Along (serverStep tlsWriteToSocketIo places) (NeverZero tlsWriteToSocketIo) start
      events)
    (hfew : Along (serverStep tlsWriteToSocketIo places) (FewTexts places) start events) :
    let s := exec (serverStep tlsWriteToSocketIo places) start events
    s.received <+: textsSent s.frames ∧
      (s.outgoing.object.queued = [] → s.wire = [] → s.received = textsSent s.frames) := by
  refine Inv.delivered (exec_of_invariant ?_ inv_start
    (along_and.mpr ⟨along_and.mpr ⟨herror, hzero⟩, hfew⟩)) handsOver_server
  rintro s event hinv ⟨⟨hno, hnever⟩, hplaces⟩
  rw [serverStep_eq hplaces]
  refine hinv.step tls_counts fun e he => ?_
  rw [Outgoing.streamKept_iff tls_counts hinv.kept (hno e he)]
  exact hnever e he

/-- A masked `hi` in a frame of eight bytes, a ping and a close frame. -/
def maskedRun : List ChannelEvent :=
  [.setState .readingAndWriting, .send ⟨.text, [104, 105], true, true, fun i => UInt8.ofNat i⟩
    (.takes 4), .send ⟨.ping, [], true, true, fun _ => 7⟩ .fails, .read 3,
    .checkToWrite [.takes 20, .takes 20], .send ⟨.close, [], true, true, fun _ => 1⟩ (.takes 9),
    .send ⟨.text, [33], true, true, fun _ => 2⟩ (.takes 9), .read 40]

theorem maskedRun_delivered :
    let s := exec (serverStep tlsWriteToSocketIo 4) start maskedRun
    s.received = [[104, 105]] := by
  have hdelivered :
      let s := exec (serverStep tlsWriteToSocketIo 4) start maskedRun
      s.received <+: textsSent s.frames ∧ _ :=
    delivered_of_tls_run (by decide) (by decide) (by decide)
  exact hdelivered.2 (by decide) (by decide)

end Channel

end WebSocket

end TradingEngine
