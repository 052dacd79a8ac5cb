import TradingEngine.Socket.SystemIOObject
import TradingEngine.WebSocket.Session
import TradingEngine.WebSocketServer.UpgradeRequest

/-!
# WebSocketServer/Connection — one object of `HttpWebsocketConnectionIO`

The handlers of an object as functions of its fields.  What they do to the world is a list of
effects: bytes the socket has taken, and coroutines that are posted to the event base.  A handler
that an exception leaves gives `none`.
-/

namespace TradingEngine

open Ascii WebSocket

/-- `HttpWebsocketConnectionIO`; `descriptor` is `fd`, which has no value in front of the first
`generate_fd`; `hasCallbacks` says that `on_connect`, `on_message` and `on_disconnect` are set. -/
structure HttpWebsocketConnectionIO where
  io : SystemIOObject
  descriptor : Option ℕ
  saveBuffer : List UInt8
  upgradeRequest : WebsocketUpgradeRequest
  frameParser : WebSocketFrameParser
  state : WebsocketState
  hasCallbacks : Bool

/-- What a handler does: bytes that the socket takes, and the coroutines it posts. -/
inductive ConnectionEffect
  | sends (bytes : List UInt8)
  | runOnConnect
  | runOnMessage (message : List UInt8)
  deriving DecidableEq, Repr

/-- What a handler leaves behind, and what it returns: 0, or -1 for `del_fd`. -/
structure Handled where
  conn : HttpWebsocketConnectionIO
  effects : List ConnectionEffect
  code : ℤ

/-- What one call of `read_buffer` gives; what the socket does with an answer comes with it. -/
inductive ReadResult
  | bytes (first : UInt8) (rest : List UInt8) (outcome : SocketOutcome)
  | closed (again : Bool)
  | wouldBlock
  | fails
  deriving DecidableEq, Repr

/-- The upgrade of a client, in one read. -/
def ReadResult.upgradeRead : ReadResult :=
  .bytes 71 WebsocketUpgradeRequest.orderUpgrade.tail (.takes 0)

namespace HttpWebsocketConnectionIO

/-- A new object. -/
def fresh : HttpWebsocketConnectionIO :=
  ⟨.fresh, none, [], .empty, .clear, .waitingHttpUpgrade, false⟩

/-- `refresh`. -/
def refresh (conn : HttpWebsocketConnectionIO) : HttpWebsocketConnectionIO :=
  { conn with
    saveBuffer := []
    frameParser := .clear
    state := .waitingHttpUpgrade
    hasCallbacks := false }

/-- `HttpWebsocketServerIO::establish_connection`, and `add_fd` for the new descriptor without
`EPOLLOUT`. -/
def establish (conn : HttpWebsocketConnectionIO) (fd : ℕ) : HttpWebsocketConnectionIO :=
  { conn.refresh with
    io := { conn.io with epollOut := false }
    descriptor := some fd
    hasCallbacks := true }

variable (conn : HttpWebsocketConnectionIO)

/-! ## Writing -/

/-- `write_raw_frame`.  The object never leaves `State::NONE`, so `write` calls no socket and the
outcome does not matter. -/
def writeRawFrame (frame : List UInt8) : HttpWebsocketConnectionIO :=
  { conn with io := (conn.io.write rawWriteToSocketIo .wouldBlock frame).1 }

/-- The arguments of a frame of the server: it is final and has no mask. -/
def frameArgs (opcode : Opcode) (payload : List UInt8) : FrameArgs :=
  ⟨opcode, payload, true, false, fun _ => 0⟩

/-- `write_text`; `build_text` may throw. -/
def writeText (message : List UInt8) : Option HttpWebsocketConnectionIO :=
  if conn.state ≠ .webSocketOpen then some conn
  else
    match buildFrame (frameArgs .text message) with
    | .error _ => none
    | .ok frame => some (conn.writeRawFrame frame)

/-- `write_close`; `build_close` may throw. -/
def writeClose (closeCode : ℕ) (reason : List UInt8) : Option HttpWebsocketConnectionIO :=
  if conn.state = .closing then some conn
  else
    match buildFrame (frameArgs .close (appendU16Be closeCode ++ reason)) with
    | .error _ => none
    | .ok frame => some ({ conn with state := .closing }.writeRawFrame frame)

/-- `handle_write`. -/
def handleWrite (outcomes : List SocketOutcome) : Handled :=
  let checked := conn.io.checkToWrite rawWriteToSocketIo outcomes
  ⟨{ conn with io := checked.object }, [.sends (acceptedBytes checked.calls)], checked.code⟩

/-! ## Reading -/

/-- What a frame of the client leads to. -/
def onEvent : SessionEvent → HttpWebsocketConnectionIO × List ConnectionEffect
  | .onMessage message => (conn, [.runOnMessage message])
  | .write opcode payload =>
    ({ conn with state := if opcode = Opcode.close then .closing else conn.state }.writeRawFrame
      (frameArgs opcode payload).out, [])

/-- The events of a call, one after the other. -/
def onEvents (conn : HttpWebsocketConnectionIO) :
    List SessionEvent → HttpWebsocketConnectionIO × List ConnectionEffect
  | [] => (conn, [])
  | event :: events =>
    ((onEvents (conn.onEvent event).1 events).1,
      (conn.onEvent event).2 ++ (onEvents (conn.onEvent event).1 events).2)

/-- `handle_websocket_bytes`. -/
def handleWebsocketBytes (data : List UInt8) : Option Handled :=
  match (conn.frameParser.feed data).parseFrames with
  | (none, _) => none
  | (some frames, parser) =>
    let loop := loopFrames (serverOnFrame conn.state) frames
    let done := { conn with frameParser := parser }.onEvents loop.1
    match loop.2 with
    | .terminated => none
    | .running => some ⟨done.1, done.2, 0⟩
    | .stopped => some ⟨done.1, done.2, -1⟩

variable (sha1 : List UInt8 → List UInt8)

/-- The answer to the request. -/
def upgradeAnswer : List UInt8 :=
  if conn.upgradeRequest.isValid then
    WebsocketUpgradeRequest.buildUpgradeResponse sha1 conn.upgradeRequest.websocketKey
  else WebsocketUpgradeRequest.badRequest

/-- The call of `write_to_socket_io` with it. -/
def answerCall (outcome : SocketOutcome) : SocketCall :=
  ⟨conn.upgradeAnswer sha1,
    rawWriteToSocketIo outcome (toUint32 (conn.upgradeAnswer sha1).length)⟩

/-- The connection is open. -/
def opened : HttpWebsocketConnectionIO := { conn with state := .webSocketOpen, saveBuffer := [] }

/-- A request that is there: the answer, and what stands behind the request. -/
def answerUpgrade (leftover : List UInt8) (outcome : SocketOutcome) : Option Handled :=
  let sent := ConnectionEffect.sends (conn.answerCall sha1 outcome).accepted
  if ¬ conn.upgradeRequest.isValid ∨ (conn.answerCall sha1 outcome).result.n = -1 then
    some ⟨conn, [sent], -1⟩
  else if leftover = [] then some ⟨conn.opened, [sent, .runOnConnect], 0⟩
  else
    (conn.opened.handleWebsocketBytes leftover).map fun handled =>
      { handled with effects := sent :: .runOnConnect :: handled.effects }

/-- `handle_http_upgrade_bytes`. -/
def handleHttpUpgradeBytes (data : List UInt8) (outcome : SocketOutcome) : Option Handled :=
  let saved := { conn with saveBuffer := conn.saveBuffer ++ data }
  match cut headEnd saved.saveBuffer with
  | none => some ⟨saved, [], 0⟩
  | some (block, leftover) =>
    { saved with upgradeRequest := .parse (block ++ headEnd) }.answerUpgrade sha1 leftover outcome

/-- What is done with the bytes of one read. -/
def handleBytes (data : List UInt8) (outcome : SocketOutcome) : Option Handled :=
  if conn.state = .waitingHttpUpgrade then conn.handleHttpUpgradeBytes sha1 data outcome
  else conn.handleWebsocketBytes data

/-- `handle_read`: the loop over the reads, the last of which would block. -/
def handleRead (conn : HttpWebsocketConnectionIO) (isFirstRead : Bool) :
    List ReadResult → Option Handled
  | [] => some ⟨conn, [], 0⟩
  | .bytes first rest outcome :: reads =>
    (conn.handleBytes sha1 (first :: rest) outcome).bind fun handled =>
      if handled.code ≠ 0 then some handled
      else
        (handleRead handled.conn false reads).map fun later =>
          { later with effects := handled.effects ++ later.effects }
  | .closed again :: _ => some ⟨conn, [], if ¬ isFirstRead ∧ again then 0 else -1⟩
  | .wouldBlock :: _ => some ⟨conn, [], 0⟩
  | .fails :: _ => some ⟨conn, [], -1⟩

/-! ## What a handler can do -/

/-- An object that still belongs to the same client, whose request stays once it is open. -/
structure Keeps (conn conn' : HttpWebsocketConnectionIO) : Prop where
  descriptor : conn'.descriptor = conn.descriptor
  hasCallbacks : conn'.hasCallbacks = conn.hasCallbacks
  isOpen : conn.state ≠ .waitingHttpUpgrade → conn'.state ≠ .waitingHttpUpgrade
  request : conn.state ≠ .waitingHttpUpgrade → conn'.upgradeRequest = conn.upgradeRequest

theorem Keeps.refl (conn : HttpWebsocketConnectionIO) : Keeps conn conn :=
  ⟨rfl, rfl, id, fun _ => rfl⟩

theorem Keeps.trans {conn conn' conn'' : HttpWebsocketConnectionIO} (h : Keeps conn conn')
    (h' : Keeps conn' conn'') : Keeps conn conn'' :=
  ⟨h'.descriptor.trans h.descriptor, h'.hasCallbacks.trans h.hasCallbacks,
    fun hopen => h'.isOpen (h.isOpen hopen),
    fun hopen => (h'.request (h.isOpen hopen)).trans (h.request hopen)⟩

/-- In front of the upgrade only the client is kept. -/
theorem Keeps.of_waiting {conn conn' : HttpWebsocketConnectionIO}
    (hwait : conn.state = .waitingHttpUpgrade) (hdescriptor : conn'.descriptor = conn.descriptor)
    (hcallbacks : conn'.hasCallbacks = conn.hasCallbacks) : Keeps conn conn' :=
  ⟨hdescriptor, hcallbacks, fun hopen => absurd hwait hopen, fun hopen => absurd hwait hopen⟩

/-- Effects that open no connection. -/
def OnlyMessages (effects : List ConnectionEffect) : Prop := ConnectionEffect.runOnConnect ∉ effects

/-- **What a read can do**: nothing, in front of the upgrade; the upgrade, and what comes behind it;
or to go on with an open connection. -/
inductive Reads (conn : HttpWebsocketConnectionIO) (handled : Handled) : Prop
  | waits (hwait : conn.state = .waitingHttpUpgrade)
      (hstate : handled.conn.state = .waitingHttpUpgrade) (hkeeps : Keeps conn handled.conn)
      (hsilent : ∀ e ∈ handled.effects, ∃ bytes, e = .sends bytes)
      (hcode : handled.code = 0 → handled.effects = [])
  | opens (bytes : List UInt8) (effects : List ConnectionEffect)
      (hwait : conn.state = .waitingHttpUpgrade)
      (hstate : handled.conn.state ≠ .waitingHttpUpgrade) (hkeeps : Keeps conn handled.conn)
      (heffects : handled.effects = .sends bytes :: .runOnConnect :: effects)
      (hmessages : OnlyMessages effects)
  | goesOn (hopen : conn.state ≠ .waitingHttpUpgrade) (hkeeps : Keeps conn handled.conn)
      (hmessages : OnlyMessages handled.effects)

variable {conn : HttpWebsocketConnectionIO} {sha1 : List UInt8 → List UInt8}

theorem Reads.keeps {handled : Handled} (h : Reads conn handled) : Keeps conn handled.conn := by
  cases h with
  | waits hwait hstate hkeeps hsilent hcode => exact hkeeps
  | opens bytes effects hwait hstate hkeeps heffects hmessages => exact hkeeps
  | goesOn hopen hkeeps hmessages => exact hkeeps

/-- The events of an open connection. -/
theorem onEvents_spec (conn : HttpWebsocketConnectionIO) (events : List SessionEvent) :
    Keeps conn (conn.onEvents events).1 ∧ OnlyMessages (conn.onEvents events).2 := by
  induction events generalizing conn with
  | nil => exact ⟨.refl conn, List.not_mem_nil⟩
  | cons event events ih =>
    obtain ⟨hkeeps, hmessages⟩ := ih (conn.onEvent event).1
    cases event with
    | onMessage message =>
      exact ⟨hkeeps, fun hmem => hmessages ((List.mem_cons.mp hmem).resolve_left (by simp))⟩
    | write opcode payload =>
      have hevent : Keeps conn (conn.onEvent (.write opcode payload)).1 := by
        refine ⟨rfl, rfl, fun hopen => ?_, fun _ => rfl⟩
        change (if opcode = Opcode.close then WebsocketState.closing else conn.state) ≠ _
        split
        · decide
        · exact hopen
      exact ⟨hevent.trans hkeeps, hmessages⟩

theorem handleWebsocketBytes_spec {data : List UInt8} {handled : Handled}
    (h : conn.handleWebsocketBytes data = some handled) :
    Keeps conn handled.conn ∧ OnlyMessages handled.effects := by
  unfold handleWebsocketBytes at h
  split at h
  · cases h
  · next frames parser hparse =>
    obtain ⟨hkeeps, hmessages⟩ := onEvents_spec { conn with frameParser := parser }
      (loopFrames (serverOnFrame conn.state) frames).1
    have hfed : Keeps conn { conn with frameParser := parser } := ⟨rfl, rfl, id, fun _ => rfl⟩
    have hall := hfed.trans hkeeps
    dsimp only at h
    split at h
    · cases h
    · cases h
      exact ⟨hall, hmessages⟩
    · cases h
      exact ⟨hall, hmessages⟩

/-- One go of the loop. -/
theorem reads_handleBytes {data : List UInt8} {outcome : SocketOutcome} {handled : Handled}
    (h : conn.handleBytes sha1 data outcome = some handled) : Reads conn handled := by
  unfold handleBytes at h
  split at h
  · next hwait =>
    unfold handleHttpUpgradeBytes at h
    dsimp only at h
    split at h
    · cases h
      exact .waits hwait hwait (.of_waiting hwait rfl rfl)
        (fun _ hmem => absurd hmem List.not_mem_nil) fun _ => rfl
    · unfold answerUpgrade at h
      dsimp only at h
      split at h
      · cases h
        exact .waits hwait hwait (.of_waiting hwait rfl rfl)
          (fun e hmem => ⟨_, List.mem_singleton.mp hmem⟩) fun hcode => by cases hcode
      · split at h
        · cases h
          exact .opens _ [] hwait (fun h => by cases h) (.of_waiting hwait rfl rfl) rfl
            List.not_mem_nil
        · obtain ⟨done, hdone, rfl⟩ := Option.map_eq_some_iff.mp h
          obtain ⟨hkeeps, hmessages⟩ := handleWebsocketBytes_spec hdone
          exact .opens _ done.effects hwait (hkeeps.isOpen fun h => by cases h)
            (.of_waiting hwait hkeeps.descriptor hkeeps.hasCallbacks) rfl hmessages
  · next hopen =>
    obtain ⟨hkeeps, hmessages⟩ := handleWebsocketBytes_spec h
    exact .goesOn hopen hkeeps hmessages

/-- Two goes of the loop. -/
theorem Reads.trans {first later : Handled} (h : Reads conn first) (hcode : first.code = 0)
    (h' : Reads first.conn later) :
    Reads conn { later with effects := first.effects ++ later.effects } := by
  cases h with
  | waits hwait hstate hkeeps hsilent hnone =>
    rw [hnone hcode]
    cases h' with
    | waits hwait' hstate' hkeeps' hsilent' hnone' =>
      exact .waits hwait hstate' (hkeeps.trans hkeeps') hsilent' hnone'
    | opens bytes effects hwait' hstate' hkeeps' heffects' hmessages' =>
      exact .opens bytes effects hwait hstate' (hkeeps.trans hkeeps') heffects' hmessages'
    | goesOn hopen' hkeeps' hmessages' => exact absurd hstate hopen'
  | opens bytes effects hwait hstate hkeeps heffects hmessages =>
    cases h' with
    | waits hwait' hstate' hkeeps' hsilent' hnone' => exact absurd hwait' hstate
    | opens bytes' effects' hwait' hstate' hkeeps' heffects' hmessages' =>
      exact absurd hwait' hstate
    | goesOn hopen' hkeeps' hmessages' =>
      exact .opens bytes (effects ++ later.effects) hwait (hkeeps'.isOpen hstate)
        (hkeeps.trans hkeeps') (congrArg (· ++ later.effects) heffects)
        fun hmem => (List.mem_append.mp hmem).elim hmessages hmessages'
  | goesOn hopen hkeeps hmessages =>
    have hstate := hkeeps.isOpen hopen
    cases h' with
    | waits hwait' hstate' hkeeps' hsilent' hnone' => exact absurd hwait' hstate
    | opens bytes effects hwait' hstate' hkeeps' heffects' hmessages' => exact absurd hwait' hstate
    | goesOn hopen' hkeeps' hmessages' =>
      exact .goesOn hopen (hkeeps.trans hkeeps')
        fun hmem => (List.mem_append.mp hmem).elim hmessages hmessages'

/-- Nothing is read. -/
theorem reads_nothing (conn : HttpWebsocketConnectionIO) (code : ℤ) :
    Reads conn ⟨conn, [], code⟩ := by
  by_cases hwait : conn.state = .waitingHttpUpgrade
  · exact .waits hwait hwait (.refl conn) (fun _ hmem => absurd hmem List.not_mem_nil) fun _ => rfl
  · exact .goesOn hwait (.refl conn) List.not_mem_nil

/-- **The read handler does what a read can do.** -/
theorem reads_handleRead {first : Bool} {reads : List ReadResult} {handled : Handled}
    (h : conn.handleRead sha1 first reads = some handled) : Reads conn handled := by
  induction reads generalizing conn first handled with
  | nil =>
    cases h
    exact reads_nothing conn 0
  | cons read reads ih =>
    cases read with
    | bytes head rest outcome =>
      obtain ⟨once, honce, h⟩ := Option.bind_eq_some_iff.mp h
      have hreads := reads_handleBytes honce
      split at h
      · cases h
        exact hreads
      · next hcode =>
        obtain ⟨later, hlater, rfl⟩ := Option.map_eq_some_iff.mp h
        exact hreads.trans (not_not.mp hcode) (ih hlater)
    | closed again =>
      cases h
      exact reads_nothing conn _
    | wouldBlock =>
      cases h
      exact reads_nothing conn 0
    | fails =>
      cases h
      exact reads_nothing conn (-1)

/-- What a writing call changes: `write_text` leaves the state as it is. -/
theorem writeText_spec {message : List UInt8} {conn' : HttpWebsocketConnectionIO}
    (h : conn.writeText message = some conn') :
    Keeps conn conn' ∧ conn'.upgradeRequest = conn.upgradeRequest ∧ conn'.state = conn.state := by
  unfold writeText at h
  split at h
  · cases h
    exact ⟨.refl conn, rfl, rfl⟩
  · split at h
    · cases h
    · cases h
      exact ⟨⟨rfl, rfl, id, fun _ => rfl⟩, rfl, rfl⟩

theorem writeClose_spec {closeCode : ℕ} {reason : List UInt8} {conn' : HttpWebsocketConnectionIO}
    (h : conn.writeClose closeCode reason = some conn') :
    Keeps conn conn' ∧ conn'.upgradeRequest = conn.upgradeRequest := by
  unfold writeClose at h
  split at h
  · cases h
    exact ⟨.refl conn, rfl⟩
  · split at h
    · cases h
    · cases h
      refine ⟨⟨rfl, rfl, fun _ hstate => ?_, fun _ => rfl⟩, rfl⟩
      cases hstate

end HttpWebsocketConnectionIO

end TradingEngine
