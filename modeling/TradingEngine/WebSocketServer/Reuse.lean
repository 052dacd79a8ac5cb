import TradingEngine.Machinery.Run
import TradingEngine.Socket.WriteStream
import TradingEngine.WebSocketServer.Connection

/-!
# WebSocketServer/Reuse — an object that serves one client after the other

`refresh` resets what the object has read, but neither its write queue nor the flag of its write
event, and the coroutines of a client that is gone still hold the object.  `sameAsFresh_iff` says
after which histories the next client is served as by a new object.
-/

namespace TradingEngine

open WebSocket

/-- A coroutine of the object that is posted and has not begun. -/
inductive ConnectionTask
  | runOnConnect
  | runOnMessage (message : List UInt8)
  deriving DecidableEq, Repr

/-- What the clients and the callbacks see. -/
inductive ConnectionOutput
  | sends (bytes : List UInt8)
  | onConnect (fd : Option ℕ) (request : WebsocketUpgradeRequest)
  | onMessage (fd : Option ℕ) (message : List UInt8)
  | onDisconnect (fd : Option ℕ)
  deriving DecidableEq, Repr

/-- What happens to an object, in the pool and outside of it. -/
inductive ConnectionEvent
  | establish (fd : ℕ)
  | handleRead (reads : List ReadResult)
  | handleWrite (outcomes : List SocketOutcome)
  | writeText (message : List UInt8)
  | disconnect
  | runTask
  | onConnectReturns (result : Except (List UInt8) Bool)

/-- An object: its fields, its coroutines that have not begun, the number of `run_on_connect` that
wait for `on_connect`, whether it is in use, and whether an exception has ended the process. -/
structure PooledWebsocket where
  conn : HttpWebsocketConnectionIO
  tasks : List ConnectionTask
  connecting : ℕ
  inUse : Bool
  terminated : Bool

namespace ConnectionEffect

/-- The bytes a handler sends. -/
def toOutput : ConnectionEffect → Option ConnectionOutput
  | .sends bytes => some (.sends bytes)
  | _ => none

/-- The coroutine a handler posts. -/
def toTask : ConnectionEffect → Option ConnectionTask
  | .sends _ => none
  | .runOnConnect => some .runOnConnect
  | .runOnMessage message => some (.runOnMessage message)

end ConnectionEffect

namespace PooledWebsocket

/-- A new object, in the pool. -/
def start : PooledWebsocket := ⟨.fresh, [], 0, false, false⟩

variable (sha1 : List UInt8 → List UInt8) (s : PooledWebsocket)

/-- The object is acquired, and `establish_connection`. -/
def reuse (fd : ℕ) : PooledWebsocket := { s with conn := s.conn.establish fd, inUse := true }

/-- `del_fd` and `release`: `on_disconnect` is called, and the object is in the pool. -/
def delFd : PooledWebsocket × List ConnectionOutput :=
  ({ s with
      conn := { s.conn.refresh with io := { s.conn.io with epollOut := false } }
      inUse := false },
    if s.conn.hasCallbacks then [.onDisconnect s.conn.descriptor] else [])

/-- What a handler has done, and `del_fd` if it returns -1. -/
def after : Option Handled → PooledWebsocket × List ConnectionOutput
  | none => ({ s with terminated := true }, [])
  | some handled =>
    let next := { s with
      conn := handled.conn
      tasks := s.tasks ++ handled.effects.filterMap ConnectionEffect.toTask }
    if handled.code = 0 then (next, handled.effects.filterMap ConnectionEffect.toOutput)
    else (next.delFd.1, handled.effects.filterMap ConnectionEffect.toOutput ++ next.delFd.2)

/-- A writing call on the object. -/
def written : Option HttpWebsocketConnectionIO → PooledWebsocket
  | none => { s with terminated := true }
  | some conn => { s with conn := conn }

/-- `run_on_connect` and `run_on_message`, up to the call of the callback. -/
def runTask : PooledWebsocket × List ConnectionOutput :=
  match s.tasks with
  | [] => (s, [])
  | task :: tasks =>
    if s.conn.hasCallbacks then
      match task with
      | .runOnConnect =>
        ({ s with tasks := tasks, connecting := s.connecting + 1 },
          [.onConnect s.conn.descriptor s.conn.upgradeRequest])
      | .runOnMessage message =>
        ({ s with tasks := tasks }, [.onMessage s.conn.descriptor message])
    else ({ s with tasks := tasks }, [])

/-- The end of `run_on_connect`, behind the callback. -/
def onConnectReturns (result : Except (List UInt8) Bool) : PooledWebsocket :=
  if s.connecting = 0 then s
  else
    let resumed := { s with connecting := s.connecting - 1 }
    match result with
    | .ok true => resumed
    | .ok false =>
      resumed.written (s.conn.writeClose 1008 (Ascii.text "Connection rejected by server"))
    | .error reason => resumed.written (s.conn.writeClose 1008 reason)

/-- **A step.**  Descriptors of an object in the pool have no events, and `EPOLLOUT` comes only
while it is asked for. -/
def step (event : ConnectionEvent) : PooledWebsocket × List ConnectionOutput :=
  if s.terminated then (s, [])
  else
    match event with
    | .establish fd => if s.inUse then (s, []) else (s.reuse fd, [])
    | .handleRead reads => if s.inUse then s.after (s.conn.handleRead sha1 true reads) else (s, [])
    | .handleWrite outcomes =>
      if s.inUse ∧ s.conn.io.epollOut then s.after (some (s.conn.handleWrite outcomes)) else (s, [])
    | .writeText message => (s.written (s.conn.writeText message), [])
    | .disconnect => if s.inUse then s.delFd else (s, [])
    | .runTask => s.runTask
    | .onConnectReturns result => (s.onConnectReturns result, [])

/-- The next client is served as by a new object: it gets the same bytes, and the callbacks are
called alike, whatever happens. -/
def SameAsFresh : Prop :=
  s.inUse = false → s.terminated = false → ∀ (fd : ℕ) (events : List ConnectionEvent),
    Run.trace (step sha1) (s.reuse fd) events = Run.trace (step sha1) (start.reuse fd) events

/-- **The condition.**  The object is acquired with an empty queue, and no coroutine of an earlier
client is left that has not begun or waits for `on_connect`. -/
def LeftClean : Prop :=
  s.inUse = false → s.terminated = false →
    s.conn.io.writeQueue = [] ∧ s.tasks = [] ∧ s.connecting = 0

end PooledWebsocket

/-! ## The queue and its flag -/

/-- An object that only queues: its flag says whether its queue is filled. -/
structure SystemIOObject.OnlyQueues (object : SystemIOObject) : Prop where
  wf : object.Wf
  state : object.currentState = .none
  enabled : object.writeEventEnabled = true ↔ object.writeQueue ≠ []

namespace SystemIOObject

variable {object : SystemIOObject}

theorem onlyQueues_fresh : fresh.OnlyQueues :=
  ⟨wf_fresh, rfl, iff_of_false Bool.false_ne_true fun h => h rfl⟩

theorem OnlyQueues.withEpollOut (h : object.OnlyQueues) (epollOut : Bool) :
    OnlyQueues { object with epollOut := epollOut } :=
  ⟨⟨h.wf.nonempty, h.wf.inside⟩, h.state, h.enabled⟩

/-- What `write` does then. -/
theorem OnlyQueues.write_eq (h : object.OnlyQueues) {frame : List UInt8} (hframe : frame ≠ []) :
    (object.write rawWriteToSocketIo .wouldBlock frame).1 =
      (object.pushBack frame).enableWriteEvent := by
  rw [SystemIOObject.write, if_neg hframe, if_pos]
  exact .inr (by rw [h.state]; decide)

theorem OnlyQueues.write (h : object.OnlyQueues) (frame : List UInt8) :
    (object.write rawWriteToSocketIo .wouldBlock frame).1.OnlyQueues := by
  by_cases hframe : frame = []
  · rw [SystemIOObject.write, if_pos hframe]
    exact h
  · rw [h.write_eq hframe]
    exact ⟨(h.wf.pushBack hframe).enableWriteEvent, by simpa using h.state, by simp⟩

theorem OnlyQueues.checkToWrite (h : object.OnlyQueues) (outcomes : List SocketOutcome) :
    (object.checkToWrite rawWriteToSocketIo outcomes).object.OnlyQueues := by
  refine ⟨checkToWrite_wf rawWriteToSocketIo raw_counts.le_size h.wf outcomes, ?_, ?_⟩
  · unfold SystemIOObject.checkToWrite
    dsimp only
    split <;> simp [h.state]
  · unfold SystemIOObject.checkToWrite
    dsimp only
    split
    · next hqueue => simp [hqueue]
    · next hqueue =>
      refine iff_of_true (h.enabled.mpr fun hempty => hqueue ?_) hqueue
      rw [hempty]
      rfl

end SystemIOObject

/-! ## Handlers write through the queue -/

namespace HttpWebsocketConnectionIO

section Writes

variable {I : SystemIOObject → Prop}
  (hwrite : ∀ object frame, I object → I (object.write rawWriteToSocketIo .wouldBlock frame).1)
  {conn : HttpWebsocketConnectionIO} {sha1 : List UInt8 → List UInt8}
include hwrite

theorem io_onEvents (h : I conn.io) (events : List SessionEvent) :
    I (conn.onEvents events).1.io := by
  induction events generalizing conn with
  | nil => exact h
  | cons event events ih =>
    refine ih ?_
    cases event with
    | onMessage message => exact h
    | write opcode payload => exact hwrite _ _ h

theorem io_handleWebsocketBytes (h : I conn.io) {data : List UInt8} {handled : Handled}
    (hhandled : conn.handleWebsocketBytes data = some handled) : I handled.conn.io := by
  unfold handleWebsocketBytes at hhandled
  split at hhandled
  · cases hhandled
  · next frames parser hparse =>
    have hevents : ∀ events, I ({ conn with frameParser := parser }.onEvents events).1.io :=
      io_onEvents hwrite h
    dsimp only at hhandled
    split at hhandled <;> cases hhandled <;> exact hevents _

theorem io_answerUpgrade (h : I conn.io) {leftover : List UInt8} {outcome : SocketOutcome}
    {handled : Handled} (hhandled : conn.answerUpgrade sha1 leftover outcome = some handled) :
    I handled.conn.io := by
  unfold answerUpgrade at hhandled
  dsimp only at hhandled
  split at hhandled
  · cases hhandled
    exact h
  · split at hhandled
    · cases hhandled
      exact h
    · obtain ⟨done, hdone, rfl⟩ := Option.map_eq_some_iff.mp hhandled
      have hopened : I conn.opened.io := h
      have hio : I done.conn.io := io_handleWebsocketBytes hwrite hopened hdone
      exact hio

theorem io_handleBytes (h : I conn.io) {data : List UInt8} {outcome : SocketOutcome}
    {handled : Handled} (hhandled : conn.handleBytes sha1 data outcome = some handled) :
    I handled.conn.io := by
  unfold handleBytes at hhandled
  split at hhandled
  · unfold handleHttpUpgradeBytes at hhandled
    dsimp only at hhandled
    split at hhandled
    · cases hhandled
      exact h
    · next block leftover hcut =>
      have hsaved : I { conn with
          saveBuffer := conn.saveBuffer ++ data
          upgradeRequest := .parse (block ++ headEnd) }.io := h
      exact io_answerUpgrade hwrite hsaved hhandled
  · exact io_handleWebsocketBytes hwrite h hhandled

/-- **What every write keeps, the read handler keeps.** -/
theorem io_handleRead (h : I conn.io) {first : Bool} {reads : List ReadResult} {handled : Handled}
    (hhandled : conn.handleRead sha1 first reads = some handled) : I handled.conn.io := by
  induction reads generalizing conn first handled with
  | nil =>
    cases hhandled
    exact h
  | cons read reads ih =>
    cases read with
    | bytes c rest outcome =>
      obtain ⟨now, hnow, hlater⟩ := Option.bind_eq_some_iff.mp hhandled
      have hio := io_handleBytes hwrite h hnow
      split at hlater
      · cases hlater
        exact hio
      · obtain ⟨later, hrest, rfl⟩ := Option.map_eq_some_iff.mp hlater
        have hend : I later.conn.io := ih hio hrest
        exact hend
    | closed again =>
      cases hhandled
      exact h
    | wouldBlock =>
      cases hhandled
      exact h
    | fails =>
      cases hhandled
      exact h

end Writes

end HttpWebsocketConnectionIO

namespace PooledWebsocket

variable {sha1 : List UInt8 → List UInt8} {s : PooledWebsocket}

/-- **The invariant**: the object only queues. -/
def OnlyQueues (s : PooledWebsocket) : Prop := s.conn.io.OnlyQueues

theorem OnlyQueues.after (h : s.OnlyQueues) {handled : Option Handled}
    (hio : ∀ done ∈ handled, done.conn.io.OnlyQueues) : (s.after handled).1.OnlyQueues := by
  cases handled with
  | none => exact h
  | some done =>
    rw [PooledWebsocket.after]
    split
    · exact hio done rfl
    · exact (hio done rfl).withEpollOut false

theorem OnlyQueues.writeClose (h : s.OnlyQueues) (closeCode : ℕ) (reason : List UInt8) :
    ∀ conn ∈ s.conn.writeClose closeCode reason, conn.io.OnlyQueues := by
  intro conn hconn
  unfold HttpWebsocketConnectionIO.writeClose at hconn
  split at hconn
  · cases hconn
    exact h
  · split at hconn
    · cases hconn
    · cases hconn
      exact SystemIOObject.OnlyQueues.write h _

theorem OnlyQueues.writeText (h : s.OnlyQueues) (message : List UInt8) :
    ∀ conn ∈ s.conn.writeText message, conn.io.OnlyQueues := by
  intro conn hconn
  unfold HttpWebsocketConnectionIO.writeText at hconn
  split at hconn
  · cases hconn
    exact h
  · split at hconn
    · cases hconn
    · cases hconn
      exact SystemIOObject.OnlyQueues.write h _

theorem OnlyQueues.written (h : s.OnlyQueues) {conn : Option HttpWebsocketConnectionIO}
    (hio : ∀ done ∈ conn, done.io.OnlyQueues) : (s.written conn).OnlyQueues := by
  cases conn with
  | none => exact h
  | some done => exact hio done rfl

theorem OnlyQueues.onConnectReturns (h : s.OnlyQueues) (result : Except (List UInt8) Bool) :
    (s.onConnectReturns result).OnlyQueues := by
  unfold PooledWebsocket.onConnectReturns
  split
  · exact h
  · have hresumed : OnlyQueues { s with connecting := s.connecting - 1 } := h
    dsimp only
    split
    · exact h
    · exact hresumed.written (h.writeClose 1008 _)
    · exact hresumed.written (h.writeClose 1008 _)

/-- **The step lemma.** -/
theorem OnlyQueues.step (h : s.OnlyQueues) (event : ConnectionEvent) :
    (s.step sha1 event).1.OnlyQueues := by
  unfold PooledWebsocket.step
  split
  · exact h
  cases event with
  | establish fd =>
    dsimp only
    split
    · exact h
    · exact SystemIOObject.OnlyQueues.withEpollOut h false
  | handleRead reads =>
    dsimp only
    split
    · exact h.after fun done hdone =>
        HttpWebsocketConnectionIO.io_handleRead (fun _ frame hio => hio.write frame) h hdone
    · exact h
  | handleWrite outcomes =>
    dsimp only
    split
    · refine h.after fun done hdone => ?_
      cases hdone
      exact SystemIOObject.OnlyQueues.checkToWrite h outcomes
    · exact h
  | writeText message => exact h.written (h.writeText message)
  | disconnect =>
    dsimp only
    split
    · exact SystemIOObject.OnlyQueues.withEpollOut h false
    · exact h
  | runTask =>
    change s.runTask.1.OnlyQueues
    unfold PooledWebsocket.runTask
    split
    · exact h
    · split
      · split <;> exact h
      · exact h
  | onConnectReturns result => exact h.onConnectReturns result

theorem onlyQueues_start : start.OnlyQueues := SystemIOObject.onlyQueues_fresh

variable (sha1) in
/-- **It holds after every history.** -/
theorem onlyQueues_exec (history : List ConnectionEvent) :
    (Run.exec (Run.next (step sha1)) start history).OnlyQueues := by
  have hstep : ∀ (s : PooledWebsocket) (event : ConnectionEvent), s.OnlyQueues →
      (Run.next (step sha1) s event).OnlyQueues := fun _ event h => h.step event
  exact Run.exec_of_forall hstep onlyQueues_start history

end PooledWebsocket

/-! ## The request of an earlier client -/

namespace HttpWebsocketConnectionIO

/-- An object with another request in it. -/
def withRequest (conn : HttpWebsocketConnectionIO) (request : WebsocketUpgradeRequest) :
    HttpWebsocketConnectionIO := { conn with upgradeRequest := request }

variable {conn : HttpWebsocketConnectionIO} {sha1 : List UInt8 → List UInt8}
  (request : WebsocketUpgradeRequest)

/-- In front of the upgrade the request is written and never read. -/
theorem handleBytes_withRequest (hwait : conn.state = .waitingHttpUpgrade) (data : List UInt8)
    (outcome : SocketOutcome) :
    (conn.withRequest request).handleBytes sha1 data outcome = conn.handleBytes sha1 data outcome ∨
      ∃ next, conn.handleBytes sha1 data outcome = some ⟨next, [], 0⟩ ∧
        next.state = .waitingHttpUpgrade ∧
        (conn.withRequest request).handleBytes sha1 data outcome =
          some ⟨next.withRequest request, [], 0⟩ := by
  have hwait' : (conn.withRequest request).state = .waitingHttpUpgrade := hwait
  rw [handleBytes, handleBytes, if_pos hwait, if_pos hwait', handleHttpUpgradeBytes,
    handleHttpUpgradeBytes]
  dsimp only [withRequest]
  cases Ascii.cut headEnd (conn.saveBuffer ++ data) with
  | none => exact .inr ⟨_, rfl, hwait, rfl⟩
  | some parts => exact .inl rfl

variable (sha1) in
theorem handleRead_withRequest (hwait : conn.state = .waitingHttpUpgrade) (first : Bool)
    (reads : List ReadResult) :
    (conn.withRequest request).handleRead sha1 first reads = conn.handleRead sha1 first reads ∨
      ∃ next code, conn.handleRead sha1 first reads = some ⟨next, [], code⟩ ∧
        next.state = .waitingHttpUpgrade ∧
        (conn.withRequest request).handleRead sha1 first reads =
          some ⟨next.withRequest request, [], code⟩ := by
  induction reads generalizing conn first with
  | nil => exact .inr ⟨_, _, rfl, hwait, rfl⟩
  | cons read reads ih =>
    cases read with
    | bytes c rest outcome =>
      rw [handleRead, handleRead]
      rcases handleBytes_withRequest request hwait (c :: rest) outcome with
        hsame | ⟨next, hnow, hnext, hnow'⟩
      · rw [hsame]
        exact .inl rfl
      · rw [hnow, hnow', Option.bind_some, Option.bind_some, if_neg (by simp), if_neg (by simp)]
        rcases ih hnext false with hlater | ⟨last, code, hlater, hlast, hlater'⟩
        · rw [hlater]
          exact .inl rfl
        · rw [hlater, hlater']
          exact .inr ⟨last, code, rfl, hlast, rfl⟩
    | closed again => exact .inr ⟨_, _, rfl, hwait, rfl⟩
    | wouldBlock => exact .inr ⟨_, _, rfl, hwait, rfl⟩
    | fails => exact .inr ⟨_, _, rfl, hwait, rfl⟩

end HttpWebsocketConnectionIO

namespace PooledWebsocket

variable {sha1 : List UInt8 → List UInt8} {s t : PooledWebsocket}

/-- The object with another request in it. -/
def withRequest (s : PooledWebsocket) (request : WebsocketUpgradeRequest) : PooledWebsocket :=
  { s with conn := s.conn.withRequest request }

/-- Two objects that serve alike: they are the same, or their upgrade is still to come and they
differ in the request of an earlier client. -/
inductive ServesAlike : PooledWebsocket → PooledWebsocket → Prop
  | same (s : PooledWebsocket) : ServesAlike s s
  | request {s : PooledWebsocket} (request : WebsocketUpgradeRequest)
      (hwait : s.conn.state = .waitingHttpUpgrade) (htasks : s.tasks = [])
      (hconnecting : s.connecting = 0) : ServesAlike s (s.withRequest request)

/-- Two steps that give out the same and lead to objects that serve alike. -/
def StepsAlike (a b : PooledWebsocket × List ConnectionOutput) : Prop :=
  a.2 = b.2 ∧ ServesAlike a.1 b.1

theorem stepsAlike_ite {c : Prop} [Decidable c]
    {a b a' b' : PooledWebsocket × List ConnectionOutput}
    (hthen : StepsAlike a a') (helse : StepsAlike b b') :
    StepsAlike (if c then a else b) (if c then a' else b') := by
  split
  · exact hthen
  · exact helse

section Request

variable (request : WebsocketUpgradeRequest) (hwait : s.conn.state = .waitingHttpUpgrade)
  (htasks : s.tasks = []) (hconnecting : s.connecting = 0)
include htasks hconnecting

/-- What a handler has done without posting anything. -/
theorem stepsAlike_after {conn : HttpWebsocketConnectionIO}
    (hstate : conn.state = .waitingHttpUpgrade)
    {effects : List ConnectionEffect} (hposted : effects.filterMap ConnectionEffect.toTask = [])
    (code : ℤ) :
    StepsAlike (s.after (some ⟨conn, effects, code⟩))
      ((s.withRequest request).after (some ⟨conn.withRequest request, effects, code⟩)) := by
  have hnone : s.tasks ++ effects.filterMap ConnectionEffect.toTask = [] := by
    rw [htasks, hposted]
    rfl
  exact stepsAlike_ite
    ⟨rfl, .request (s := { s with conn := conn, tasks := _ }) request hstate hnone hconnecting⟩
    ⟨rfl,
      .request (s := (delFd { s with conn := conn, tasks := _ }).1) request rfl hnone hconnecting⟩

include hwait

theorem stepsAlike_handleRead (reads : List ReadResult) :
    StepsAlike (s.after (s.conn.handleRead sha1 true reads))
      ((s.withRequest request).after
        ((s.conn.withRequest request).handleRead sha1 true reads)) := by
  rcases HttpWebsocketConnectionIO.handleRead_withRequest sha1 request hwait true reads
    with hsame | ⟨next, code, hnow, hnext, hnow'⟩
  · rw [hsame]
    cases hread : s.conn.handleRead sha1 true reads with
    | none => exact ⟨rfl, .request request hwait htasks hconnecting⟩
    | some handled => exact stepsAlike_ite ⟨rfl, .same _⟩ ⟨rfl, .same _⟩
  · rw [hnow, hnow']
    exact stepsAlike_after request htasks hconnecting hnext rfl code

end Request

/-- **A step keeps them alike**, and they give out the same. -/
theorem ServesAlike.step (h : ServesAlike s t) (event : ConnectionEvent) :
    StepsAlike (s.step sha1 event) (t.step sha1 event) := by
  cases h with
  | same => exact ⟨rfl, .same _⟩
  | request request hwait htasks hconnecting =>
    have hkeep : StepsAlike (s, []) (s.withRequest request, []) :=
      ⟨rfl, .request request hwait htasks hconnecting⟩
    refine stepsAlike_ite hkeep ?_
    cases event with
    | establish fd =>
      exact stepsAlike_ite hkeep
        ⟨rfl, .request (s := s.reuse fd) request rfl htasks hconnecting⟩
    | handleRead reads =>
      exact stepsAlike_ite (stepsAlike_handleRead request hwait htasks hconnecting reads) hkeep
    | handleWrite outcomes =>
      have hwritten : (s.conn.handleWrite outcomes).conn.state = .waitingHttpUpgrade := hwait
      have hposted :
          (s.conn.handleWrite outcomes).effects.filterMap ConnectionEffect.toTask = [] := rfl
      exact stepsAlike_ite (stepsAlike_after request htasks hconnecting hwritten hposted _) hkeep
    | writeText message =>
      have hclosed : s.conn.state ≠ .webSocketOpen := by rw [hwait]; decide
      have hclosed' : (s.withRequest request).conn.state ≠ .webSocketOpen := hclosed
      dsimp only
      unfold HttpWebsocketConnectionIO.writeText
      rw [if_pos hclosed, if_pos hclosed']
      exact hkeep
    | disconnect =>
      exact stepsAlike_ite ⟨rfl, .request (s := s.delFd.1) request rfl htasks hconnecting⟩ hkeep
    | runTask =>
      have hnone : (s.withRequest request).tasks = [] := htasks
      dsimp only
      rw [runTask, runTask, htasks, hnone]
      exact hkeep
    | onConnectReturns result =>
      have hnone : (s.withRequest request).connecting = 0 := hconnecting
      dsimp only
      rw [onConnectReturns, onConnectReturns, if_pos hconnecting, if_pos hnone]
      exact hkeep

theorem ServesAlike.trace (h : ServesAlike s t) (events : List ConnectionEvent) :
    Run.trace (PooledWebsocket.step sha1) s events =
      Run.trace (PooledWebsocket.step sha1) t events :=
  Run.trace_congr (fun _ _ event h => h.step event) h events

/-! ## Telling an object from a new one -/

/-- A clean object serves like a new one. -/
theorem servesAlike_reuse (h : s.OnlyQueues) (hterminated : s.terminated = false)
    (hqueue : s.conn.io.writeQueue = []) (htasks : s.tasks = []) (hconnecting : s.connecting = 0)
    (fd : ℕ) : ServesAlike (start.reuse fd) (s.reuse fd) := by
  have hoffset := h.wf.writeOffset_eq_zero hqueue
  have henabled : s.conn.io.writeEventEnabled = false := by
    rw [← Bool.not_eq_true, h.enabled, not_not]
    exact hqueue
  have hio : { s.conn.io with epollOut := false } = SystemIOObject.fresh := by
    dsimp only
    rw [h.state, hqueue, hoffset, henabled]
    rfl
  have heq : s.reuse fd = (start.reuse fd).withRequest s.conn.upgradeRequest := by
    unfold reuse HttpWebsocketConnectionIO.establish
    rw [hio, htasks, hconnecting, hterminated]
    rfl
  rw [heq]
  exact .request s.conn.upgradeRequest rfl rfl rfl

variable (sha1) in
theorem handleRead_upgradeRead {conn : HttpWebsocketConnectionIO}
    (hwait : conn.state = .waitingHttpUpgrade) (hsaved : conn.saveBuffer = []) :
    ∃ bytes, conn.handleRead sha1 true [.upgradeRead] =
      some ⟨(conn.withRequest (.parse WebsocketUpgradeRequest.orderUpgrade)).opened,
        [.sends bytes, .runOnConnect], 0⟩ := by
  obtain ⟨hcut, hblock, hvalid⟩ := WebsocketUpgradeRequest.orderUpgrade_read
  have hbytes : (71 : UInt8) :: WebsocketUpgradeRequest.orderUpgrade.tail =
      WebsocketUpgradeRequest.orderUpgrade := by
    rw [WebsocketUpgradeRequest.orderUpgrade, Ascii.text_ofList, Ascii.text_ofList]
    rfl
  have htaken : ∀ size, (rawWriteToSocketIo (.takes 0) size).n ≠ -1 := by
    intro size
    simp only [rawWriteToSocketIo]
    omega
  have hnow : ∃ bytes, conn.handleBytes sha1 WebsocketUpgradeRequest.orderUpgrade (.takes 0) =
      some ⟨(conn.withRequest (.parse WebsocketUpgradeRequest.orderUpgrade)).opened,
        [.sends bytes, .runOnConnect], 0⟩ := by
    refine ⟨((conn.withRequest (.parse WebsocketUpgradeRequest.orderUpgrade)).answerCall sha1
      (.takes 0)).accepted, ?_⟩
    unfold HttpWebsocketConnectionIO.handleBytes
    rw [if_pos hwait, HttpWebsocketConnectionIO.handleHttpUpgradeBytes, hsaved, List.nil_append]
    dsimp only
    rw [hcut]
    dsimp only
    rw [hblock, HttpWebsocketConnectionIO.answerUpgrade, if_neg, if_pos rfl]
    · rfl
    · rintro (hinvalid | hfailed)
      · exact hinvalid hvalid
      · exact htaken _ hfailed
  obtain ⟨bytes, hnow⟩ := hnow
  refine ⟨bytes, ?_⟩
  rw [ReadResult.upgradeRead, HttpWebsocketConnectionIO.handleRead, hbytes, hnow]
  rfl

/-- A client that is there, in front of its upgrade. -/
structure Waiting (s : PooledWebsocket) : Prop where
  onlyQueues : s.OnlyQueues
  inUse : s.inUse = true
  terminated : s.terminated = false
  state : s.conn.state = .waitingHttpUpgrade
  saveBuffer : s.conn.saveBuffer = []
  epollOut : s.conn.io.epollOut = false

theorem waiting_reuse (h : s.OnlyQueues) (hterminated : s.terminated = false) (fd : ℕ) :
    (s.reuse fd).Waiting where
  onlyQueues := SystemIOObject.OnlyQueues.withEpollOut h false
  inUse := rfl
  terminated := hterminated
  state := rfl
  saveBuffer := rfl
  epollOut := rfl

/-- A frame that is queued asks for `EPOLLOUT` if the queue was empty. -/
theorem epollOut_write {object : SystemIOObject} (h : object.OnlyQueues)
    (hout : object.epollOut = false) {frame : List UInt8} (hframe : frame ≠ []) :
    (object.write rawWriteToSocketIo .wouldBlock frame).1.epollOut = true ↔
      object.writeQueue = [] := by
  rw [h.write_eq hframe, SystemIOObject.enableWriteEvent]
  split
  · next henabled =>
    have hclear : (object.pushBack frame).epollOut = false := hout
    exact iff_of_false (by rw [hclear]; exact Bool.false_ne_true) (h.enabled.mp henabled)
  · next henabled =>
    exact iff_of_true rfl (not_not.mp fun hqueue => henabled (h.enabled.mpr hqueue))

variable (sha1) in
/-- A socket that is writable is written to exactly if `EPOLLOUT` was asked for. -/
theorem step_handleWrite_ne_nil (hinUse : s.inUse = true) (hterminated : s.terminated = false) :
    (s.step sha1 (.handleWrite [.takes 0])).2 ≠ [] ↔ s.conn.io.epollOut = true := by
  rw [step, if_neg (by rw [hterminated]; exact Bool.false_ne_true)]
  split
  · next hready =>
    refine iff_of_true ?_ hready.2
    rw [after]
    split <;> exact List.cons_ne_nil _ _
  · next hready => exact iff_of_false (fun h => h rfl) fun hout => hready ⟨hinUse, hout⟩

/-- A client is upgraded and is written to; its socket becomes writable. -/
def writeExperiment : List ConnectionEvent :=
  [.handleRead [.upgradeRead], .writeText [], .handleWrite [.takes 0]]

variable (sha1) in
/-- **What is written to a client waits for `EPOLLOUT`**, which is asked for only if the queue was
empty. -/
theorem trace_writeExperiment (h : s.Waiting) :
    (Run.trace (step sha1) s writeExperiment).length = 1 ↔ s.conn.io.writeQueue ≠ [] := by
  obtain ⟨bytes, hread⟩ := handleRead_upgradeRead sha1 h.state h.saveBuffer
  have hrunning : ¬ s.terminated = true := by rw [h.terminated]; exact Bool.false_ne_true
  have hframe :
      (buildFrame <| HttpWebsocketConnectionIO.frameArgs .text []) = .ok [0x81, 0] := rfl
  let conn := (s.conn.withRequest (.parse WebsocketUpgradeRequest.orderUpgrade)).opened
  let upgraded : PooledWebsocket := { s with conn := conn, tasks := s.tasks ++ [.runOnConnect] }
  let written : PooledWebsocket := { upgraded with conn := conn.writeRawFrame [0x81, 0] }
  have hupgrade : s.step sha1 (.handleRead [.upgradeRead]) = (upgraded, [.sends bytes]) := by
    rw [step, if_neg hrunning, if_pos h.inUse, hread]
    rfl
  have hwrite : upgraded.step sha1 (.writeText []) = (written, []) := by
    have hopen : ¬ conn.state ≠ .webSocketOpen := not_not.mpr rfl
    have htext : conn.writeText [] = some (conn.writeRawFrame [0x81, 0]) := by
      unfold HttpWebsocketConnectionIO.writeText
      rw [if_neg hopen, hframe]
    rw [step, if_neg hrunning, htext]
    rfl
  have hqueue : written.conn.io.epollOut = true ↔ s.conn.io.writeQueue = [] :=
    epollOut_write h.onlyQueues h.epollOut (List.cons_ne_nil 0x81 [0])
  have hready := step_handleWrite_ne_nil sha1 (s := written) h.inUse h.terminated
  have htrace : Run.trace (step sha1) s writeExperiment =
      .sends bytes :: (written.step sha1 (.handleWrite [.takes 0])).2 := by
    rw [writeExperiment, Run.trace, Run.next, hupgrade, Run.trace, Run.next, hwrite, Run.trace,
      Run.trace]
    simp
  rw [htrace, List.length_cons, Nat.add_eq_right, List.length_eq_zero_iff, Ne, ← hqueue, ← hready,
    not_not]

/-- A client is rejected, and its socket becomes writable. -/
def rejectExperiment : List ConnectionEvent :=
  [.onConnectReturns (.ok false), .handleWrite [.takes 0]]

variable (sha1) in
/-- **A client is told that it is rejected** if a `run_on_connect` waits. -/
theorem trace_rejectExperiment (h : s.Waiting) (hqueue : s.conn.io.writeQueue = []) :
    Run.trace (step sha1) s rejectExperiment = [] ↔ s.connecting = 0 := by
  have hrunning : ¬ s.terminated = true := by rw [h.terminated]; exact Bool.false_ne_true
  have htrace : Run.trace (step sha1) s rejectExperiment =
      ((s.onConnectReturns (.ok false)).step sha1 (.handleWrite [.takes 0])).2 := by
    have hreturns : s.step sha1 (.onConnectReturns (.ok false)) =
        (s.onConnectReturns (.ok false), []) := by
      rw [step, if_neg hrunning]
    rw [rejectExperiment, Run.trace, Run.next, hreturns, Run.trace, Run.trace, List.append_nil]
    rfl
  rw [htrace, onConnectReturns]
  by_cases hconnecting : s.connecting = 0
  · rw [if_pos hconnecting]
    have hready := step_handleWrite_ne_nil sha1 h.inUse h.terminated
    rw [h.epollOut] at hready
    exact iff_of_true (not_not.mp fun hne => Bool.false_ne_true (hready.mp hne)) hconnecting
  · rw [if_neg hconnecting]
    obtain ⟨frame, hframe, hne⟩ : ∃ frame,
      (buildFrame <| HttpWebsocketConnectionIO.frameArgs .close
        (appendU16Be 1008 ++ Ascii.text "Connection rejected by server")) = .ok frame ∧
      frame ≠ [] :=
      ⟨_, rfl, List.cons_ne_nil _ _⟩
    let conn := { s.conn with state := .closing }.writeRawFrame frame
    have hclose : s.conn.writeClose 1008 (Ascii.text "Connection rejected by server") =
        some conn := by
      unfold HttpWebsocketConnectionIO.writeClose
      rw [if_neg (by rw [h.state]; decide), hframe]
    have hout : conn.io.epollOut = true :=
      (epollOut_write h.onlyQueues h.epollOut hne).mpr hqueue
    have hready := step_handleWrite_ne_nil sha1
      (s := { s with connecting := s.connecting - 1, conn := conn }) h.inUse h.terminated
    dsimp only
    rw [hclose]
    exact iff_of_false (hready.mpr hout) hconnecting

variable (sha1) in
/-- **A coroutine that is left calls a callback.** -/
theorem trace_runTask (h : s.Waiting) (hcallbacks : s.conn.hasCallbacks = true) :
    Run.trace (step sha1) s [.runTask] = [] ↔ s.tasks = [] := by
  have hrunning : ¬ s.terminated = true := by rw [h.terminated]; exact Bool.false_ne_true
  have htrace : Run.trace (step sha1) s [.runTask] = s.runTask.2 := by
    rw [Run.trace, Run.trace, List.append_nil, step, if_neg hrunning]
  rw [htrace, runTask]
  cases htasks : s.tasks with
  | nil => exact iff_of_true rfl rfl
  | cons task tasks =>
    dsimp only
    rw [if_pos hcallbacks]
    cases task <;> exact iff_of_false (List.cons_ne_nil _ _) (List.cons_ne_nil _ _)

/-! ## The next client -/

/-- **The next client is served as by a new object exactly when** the object was left clean: nothing
is queued, and no coroutine of an earlier client is still to call back or to be called back. -/
theorem sameAsFresh_iff (sha1 : List UInt8 → List UInt8) (history : List ConnectionEvent) :
    SameAsFresh sha1 (Run.exec (Run.next (step sha1)) start history) ↔
      LeftClean (Run.exec (Run.next (step sha1)) start history) := by
  have hqueues := onlyQueues_exec sha1 history
  generalize Run.exec (Run.next (step sha1)) start history = s at hqueues
  constructor
  · intro h hfree hterminated
    have hwaiting := waiting_reuse hqueues hterminated 0
    have hfresh := waiting_reuse onlyQueues_start rfl 0
    have hqueue : s.conn.io.writeQueue = [] := by
      by_contra hne
      have hlength := (trace_writeExperiment sha1 hwaiting).mpr hne
      rw [h hfree hterminated, trace_writeExperiment sha1 hfresh] at hlength
      exact hlength rfl
    have htasks := (trace_runTask sha1 hfresh rfl).mpr rfl
    have hconnecting := (trace_rejectExperiment sha1 hfresh rfl).mpr rfl
    rw [← h hfree hterminated] at htasks hconnecting
    exact ⟨hqueue, (trace_runTask sha1 hwaiting rfl).mp htasks,
      (trace_rejectExperiment sha1 hwaiting hqueue).mp hconnecting⟩
  · intro h hfree hterminated fd events
    obtain ⟨hqueue, htasks, hconnecting⟩ := h hfree hterminated
    exact ((servesAlike_reuse hqueues hterminated hqueue htasks hconnecting fd).trace events).symm

/-- A client is accepted and closes its connection with a close frame. -/
def closedRun : List ConnectionEvent :=
  [.establish 5, .handleRead [.upgradeRead], .runTask, .onConnectReturns (.ok true),
    .handleRead [.bytes 0x88 [0x80, 0, 0, 0, 0] .wouldBlock]]

/-- The close frame stays in the queue, and the next client is never written to. -/
theorem closedRun_not_sameAsFresh :
    ¬ ∀ (sha1 : List UInt8 → List UInt8) (history : List ConnectionEvent),
      SameAsFresh sha1 (Run.exec (Run.next (step sha1)) start history) := by
  intro h
  let sha1 : List UInt8 → List UInt8 := fun _ => []
  have hfree : (Run.exec (Run.next (step sha1)) start closedRun).inUse = false ∧
      (Run.exec (Run.next (step sha1)) start closedRun).terminated = false := by
    rw [closedRun, ReadResult.upgradeRead, WebsocketUpgradeRequest.orderUpgrade, Ascii.text_ofList,
      Ascii.text_ofList]
    decide +kernel
  have hdiffer :
      Run.trace (step sha1) ((Run.exec (Run.next (step sha1)) start closedRun).reuse 6)
        writeExperiment ≠ Run.trace (step sha1) (start.reuse 6) writeExperiment := by
    rw [closedRun, writeExperiment, ReadResult.upgradeRead, WebsocketUpgradeRequest.orderUpgrade,
      Ascii.text_ofList, Ascii.text_ofList]
    decide +kernel
  exact hdiffer (h sha1 closedRun hfree.1 hfree.2 6 writeExperiment)

end PooledWebsocket

end TradingEngine
