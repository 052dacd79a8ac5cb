import TradingEngine.Coroutine.EpollLoop
import TradingEngine.Http.ClientRequest

/-!
# Coroutine/EpollClose — what a peer sends before it closes

The loop looks at the hang-up flags first, so an event that reports bytes and the end of the
connection together removes the object with the bytes unread.  An `HttpsClientRequest` fails its
requests at once when its connection is removed, while the bytes it has read wait for a task of the
event loop.
-/

namespace TradingEngine

open Run

/-! ## A connection and its peer -/

/-- What a peer does not do any more. -/
inductive PeerState
  | sending
  | halfClosed
  | closed
  deriving DecidableEq, Repr

/-- A connection with its peer: what the peer has sent, what of it was not read, and what was read
in `handle_read`. -/
structure PeerConnection where
  registered : Bool
  peer : PeerState
  sent : List UInt8
  unread : List UInt8
  handled : List UInt8
  deriving DecidableEq, Repr

/-- A connection is registered, the peer sends or closes, the loop comes to an entry of the
connection (its handlers read `taken` bytes, and may fail), or the object calls `del_fd` itself, as
it does where a write has failed. -/
inductive PeerStep
  | register
  | peerSends (bytes : List UInt8)
  | peerCloses (half : Bool)
  | dispatch (mask : EventMask) (taken : ℕ) (readFails writeFails : Bool)
  | delFd
  deriving DecidableEq, Repr

/-- Bytes are read in `handle_read`, or `release` is called. -/
inductive PeerEffect
  | handed (bytes : List UInt8)
  | released
  deriving DecidableEq, Repr

namespace PeerConnection

/-- No connection. -/
def start : PeerConnection := ⟨false, .sending, [], [], []⟩

/-- `del_fd`. -/
def release (s : PeerConnection) : PeerConnection × List PeerEffect :=
  ({ s with registered := false }, [.released])

/-- `handle_read`. -/
def handleRead (s : PeerConnection) (taken : ℕ) : PeerConnection :=
  { s with unread := s.unread.drop taken, handled := s.handled ++ s.unread.take taken }

/-- `if (event & EPOLLOUT)`. -/
def checkWrite (s : PeerConnection) (mask : EventMask) (writeFails : Bool) :
    PeerConnection × List PeerEffect :=
  if mask.epollOut = true then
    if writeFails = true then s.release else (s, [])
  else (s, [])

/-- The body of the loop over the events. -/
def dispatch (s : PeerConnection) (mask : EventMask) (taken : ℕ) (readFails writeFails : Bool) :
    PeerConnection × List PeerEffect :=
  if mask.hangsUp = true then s.release
  else if mask.epollIn = true then
    let read := s.handleRead taken
    let rest := if readFails = true then read.release else read.checkWrite mask writeFails
    (rest.1, .handed (s.unread.take taken) :: rest.2)
  else s.checkWrite mask writeFails

/-- **A step.** -/
def step (s : PeerConnection) : PeerStep → PeerConnection × List PeerEffect
  | .register => (if s.registered = true then s else { start with registered := true }, [])
  | .peerSends bytes => ({ s with sent := s.sent ++ bytes, unread := s.unread ++ bytes }, [])
  | .peerCloses half => ({ s with peer := if half = true then .halfClosed else .closed }, [])
  | .dispatch mask taken readFails writeFails =>
    if s.registered = true then s.dispatch mask taken readFails writeFails else (s, [])
  | .delFd => if s.registered = true then s.release else (s, [])

/-- What a peer can do, and what `epoll_wait` can report of it. -/
def Consistent (s : PeerConnection) : PeerStep → Prop
  | .register => s.registered = false
  | .peerSends _ => s.peer = .sending
  | .peerCloses half => s.peer = .sending ∨ s.peer = .halfClosed ∧ half = false
  | .dispatch mask _ _ _ => (mask.epollIn = true → s.unread ≠ [] ∨ s.peer ≠ .sending) ∧
    (mask.epollRdHup = true → s.peer ≠ .sending) ∧ (mask.epollHup = true → s.peer = .closed)
  | .delFd => True

instance (s : PeerConnection) : ∀ step, Decidable (s.Consistent step)
  | .register => inferInstanceAs (Decidable (_ = _))
  | .peerSends _ => inferInstanceAs (Decidable (_ = _))
  | .peerCloses _ => inferInstanceAs (Decidable (_ ∨ _ ∧ _))
  | .dispatch _ _ _ _ => inferInstanceAs (Decidable ((_ → _ ∨ _) ∧ (_ → _) ∧ (_ → _)))
  | .delFd => inferInstanceAs (Decidable True)

/-- What a peer that has closed had sent was read when the connection is released. -/
def Delivered (s : PeerConnection) (event : PeerStep) : Prop :=
  s.peer ≠ .sending → .released ∈ (s.step event).2 → (s.step event).1.handled = s.sent

instance (s : PeerConnection) (event : PeerStep) : Decidable (s.Delivered event) :=
  inferInstanceAs (Decidable (_ → _ → _))

/-- The loop removes the object of an entry. -/
def removes (mask : EventMask) (readFails writeFails : Bool) : Bool :=
  mask.hangsUp || (mask.epollIn && readFails || mask.epollOut && writeFails)

/-- What the handler of an entry reads, and what it leaves. -/
def passed (s : PeerConnection) (mask : EventMask) (taken : ℕ) : List UInt8 :=
  if mask.hangsUp = false ∧ mask.epollIn = true then s.unread.take taken else []

def left (s : PeerConnection) (mask : EventMask) (taken : ℕ) : List UInt8 :=
  if mask.hangsUp = false ∧ mask.epollIn = true then s.unread.drop taken else s.unread

/-- **Nothing is left when the object is removed**: no hang-up is reported with bytes unread, no
handler fails with bytes that it has not read, and no object is removed by itself before they are
read. -/
def ReadFirst (s : PeerConnection) : PeerStep → Prop
  | .dispatch mask taken readFails writeFails => s.registered = true → s.peer ≠ .sending →
    removes mask readFails writeFails = true → s.left mask taken = []
  | .delFd => s.registered = true → s.peer ≠ .sending → s.unread = []
  | .register | .peerSends _ | .peerCloses _ => True

instance (s : PeerConnection) (event : PeerStep) : Decidable (s.ReadFirst event) :=
  match event with
  | .dispatch _ _ _ _ => inferInstanceAs (Decidable (_ → _ → _ → _))
  | .delFd => inferInstanceAs (Decidable (_ → _ → _))
  | .register | .peerSends _ | .peerCloses _ => inferInstanceAs (Decidable True)

variable {s : PeerConnection}

/-! ## What a dispatch does -/

theorem checkWrite_eq (s : PeerConnection) (mask : EventMask) (writeFails : Bool) :
    s.checkWrite mask writeFails =
      ({ s with registered := s.registered && !(mask.epollOut && writeFails) },
        if (mask.epollOut && writeFails) = true then [.released] else []) := by
  rw [checkWrite]
  cases mask.epollOut <;> cases writeFails <;> simp [release]

theorem readFirst_eq (s : PeerConnection) (mask : EventMask) (taken : ℕ)
    (readFails writeFails : Bool) :
    (if readFails = true then (s.handleRead taken).release
      else (s.handleRead taken).checkWrite mask writeFails) =
      ({ s.handleRead taken with
          registered := s.registered && !(readFails || mask.epollOut && writeFails) },
        if (readFails || mask.epollOut && writeFails) = true then [.released] else []) := by
  rw [checkWrite_eq]
  cases readFails <;> simp [release, handleRead]

/-- **A dispatch**: what the handler reads is given to it, and the object is removed or not. -/
theorem dispatch_eq (s : PeerConnection) (mask : EventMask) (taken : ℕ)
    (readFails writeFails : Bool) :
    s.dispatch mask taken readFails writeFails =
      ({ s with
          registered := s.registered && !removes mask readFails writeFails
          unread := s.left mask taken
          handled := s.handled ++ s.passed mask taken },
        (if mask.hangsUp = false ∧ mask.epollIn = true then [.handed (s.passed mask taken)]
          else []) ++ if removes mask readFails writeFails = true then [.released] else []) := by
  rw [dispatch, removes, left, passed]
  cases mask.hangsUp with
  | true => simp [release]
  | false =>
    cases mask.epollIn with
    | true =>
      dsimp only
      rw [if_neg Bool.false_ne_true, if_pos rfl, readFirst_eq]
      simp [handleRead]
    | false => simp [checkWrite_eq]

theorem passed_append_left (s : PeerConnection) (mask : EventMask) (taken : ℕ) :
    s.passed mask taken ++ s.left mask taken = s.unread := by
  rw [passed, left]
  split
  · exact List.take_append_drop taken s.unread
  · rfl

/-- The connection is released exactly when its object is removed. -/
theorem released_mem_dispatch {mask : EventMask} {taken : ℕ} {readFails writeFails : Bool} :
    .released ∈ (s.step (.dispatch mask taken readFails writeFails)).2 ↔
      s.registered = true ∧ removes mask readFails writeFails = true := by
  rw [step]
  cases s.registered with
  | false => simp
  | true =>
    rw [if_pos rfl, dispatch_eq]
    split <;> split <;> simp_all

/-! ## The bytes of a connection -/

/-- Every byte was read, or is unread. -/
def Conserved (s : PeerConnection) : Prop := s.handled ++ s.unread = s.sent

theorem conserved_start : Conserved start := rfl

/-- **A step keeps every byte.** -/
theorem Conserved.step (h : s.Conserved) (event : PeerStep) :
    (next PeerConnection.step s event).Conserved := by
  cases event with
  | register =>
    rw [next, PeerConnection.step]
    split
    · exact h
    · rfl
  | peerSends bytes =>
    show s.handled ++ (s.unread ++ bytes) = s.sent ++ bytes
    rw [← List.append_assoc, h]
  | peerCloses half => exact h
  | dispatch mask taken readFails writeFails =>
    rw [next, PeerConnection.step]
    split
    · rw [dispatch_eq]
      show s.handled ++ s.passed mask taken ++ s.left mask taken = s.sent
      rw [List.append_assoc, passed_append_left, h]
    · exact h
  | delFd =>
    rw [next, PeerConnection.step]
    split
    · exact h
    · exact h

/-- What a peer that has closed had sent was read exactly when nothing is unread. -/
theorem Conserved.handled_eq_iff (h : s.Conserved) : s.handled = s.sent ↔ s.unread = [] := by
  rw [← h]
  exact List.self_eq_append_right

/-- **A step delivers exactly when nothing is left.** -/
theorem Conserved.delivered_iff (h : s.Conserved) (event : PeerStep) :
    s.Delivered event ↔ s.ReadFirst event := by
  cases event with
  | dispatch mask taken readFails writeFails =>
    have hsent : s.handled ++ s.passed mask taken ++ s.left mask taken = s.sent := by
      rw [List.append_assoc, passed_append_left, h]
    have hall : s.registered = true →
        ((s.step (.dispatch mask taken readFails writeFails)).1.handled = s.sent ↔
          s.left mask taken = []) := by
      intro hregistered
      rw [PeerConnection.step, if_pos hregistered, dispatch_eq, ← hsent]
      exact List.self_eq_append_right
    rw [Delivered, released_mem_dispatch, ReadFirst]
    exact ⟨fun hd hreg hpeer hremoves => (hall hreg).mp (hd hpeer ⟨hreg, hremoves⟩),
      fun hf hpeer hreleased => (hall hreleased.1).mpr (hf hreleased.1 hpeer hreleased.2)⟩
  | delFd =>
    rw [Delivered, PeerConnection.step, ReadFirst]
    cases s.registered with
    | false =>
      exact iff_of_true (fun _ hmem => absurd hmem List.not_mem_nil) fun hfalse => by cases hfalse
    | true =>
      exact ⟨fun hd _ hpeer => h.handled_eq_iff.mp (hd hpeer (List.mem_singleton_self _)),
        fun hf hpeer _ => h.handled_eq_iff.mpr (hf rfl hpeer)⟩
  | register | peerSends | peerCloses =>
    exact iff_of_true (fun _ hmem => absurd hmem List.not_mem_nil) trivial

end PeerConnection

/-! ## The connection of a request -/

/-- An `HttpsClientRequest` with its connection, what its callback has got and what it has parsed,
on all its connections. -/
structure ClientConnection where
  connection : PeerConnection
  client : HttpsClientRequest
  requests : ℕ
  received : List UInt8
  parsed : List UInt8

/-- A step of the connection, a call of `send_request`, or the task of `wait_for_tcp_data`. -/
inductive ClientStep
  | connection (event : PeerStep)
  | sendRequest
  | runReader
  deriving DecidableEq, Repr

/-- The connection is released, with the requests that are pending, what was parsed and what was
received. -/
inductive ClientEffect
  | released (connection : PeerConnection) (requests : List ℕ) (parsed received : List UInt8)
  deriving DecidableEq, Repr

/-- A peer that has closed had all it sent read, and all that was read was parsed before requests
fail. -/
def ClientEffect.Delivered : ClientEffect → Prop
  | .released connection requests parsed received => connection.peer ≠ .sending →
    connection.handled = connection.sent ∧ (requests ≠ [] → parsed = received)

instance : ∀ effect : ClientEffect, Decidable effect.Delivered
  | .released _ _ _ _ => inferInstanceAs (Decidable (_ → _ ∧ (_ → _)))

namespace ClientConnection

/-- A new request, not yet connected. -/
def start : ClientConnection := ⟨.start, .start, 0, [], []⟩

/-- What the connection calls. -/
def notify (s : ClientConnection) : PeerEffect → ClientConnection × List ClientEffect
  | .handed bytes =>
    ({ s with client := s.client.handleReadData bytes, received := s.received ++ bytes }, [])
  | .released =>
    ({ s with client := s.client.onDisconnect.1 },
      [.released s.connection s.client.responseFutures s.parsed s.received])

/-- The same, for all effects of a step. -/
def notifyAll (s : ClientConnection) : List PeerEffect → ClientConnection × List ClientEffect
  | [] => (s, [])
  | effect :: effects =>
    let first := s.notify effect
    let rest := first.1.notifyAll effects
    (rest.1, first.2 ++ rest.2)

/-- **A step**; a program that has ended does nothing. -/
def step (s : ClientConnection) (event : ClientStep) : ClientConnection × List ClientEffect :=
  if s.client.terminated = true then (s, [])
  else
    match event with
    | .connection event =>
      let moved := s.connection.step event
      { s with connection := moved.1 }.notifyAll moved.2
    | .sendRequest =>
      ({ s with
          requests := s.requests + 1
          client :=
            if s.connection.registered = true then s.client.pushFuture s.requests else s.client },
        [])
    | .runReader =>
      ({ s with client := s.client.runReader.1, parsed := s.parsed ++ s.client.reader.data }, [])

/-- What the peer and `epoll_wait` can do. -/
def Consistent (s : ClientConnection) : ClientStep → Prop
  | .connection event => s.connection.Consistent event
  | .sendRequest | .runReader => True

instance (s : ClientConnection) : ∀ event, Decidable (s.Consistent event)
  | .connection event => inferInstanceAs (Decidable (s.connection.Consistent event))
  | .sendRequest | .runReader => inferInstanceAs (Decidable True)

/-- **Nothing is left when the connection is removed**: no bytes in the socket, and, if a request is
pending, none that the reader has still to take. -/
def ReadFirst (s : ClientConnection) : ClientStep → Prop
  | .connection (.dispatch mask taken readFails writeFails) =>
    s.client.terminated = false → s.connection.registered = true → s.connection.peer ≠ .sending →
      PeerConnection.removes mask readFails writeFails = true →
        s.connection.left mask taken = [] ∧
          (s.client.responseFutures ≠ [] →
            s.client.waitingData ++ s.connection.passed mask taken = [])
  | .connection .delFd =>
    s.client.terminated = false → s.connection.registered = true → s.connection.peer ≠ .sending →
      s.connection.unread = [] ∧ (s.client.responseFutures ≠ [] → s.client.waitingData = [])
  | _ => True

/-! ## The bytes of a request -/

variable {s : ClientConnection}

/-- **The invariant.**  Every byte was read or is unread, and was parsed or is on its way to the
reader. -/
structure Inv (s : ClientConnection) : Prop where
  connection : s.connection.Conserved
  queued : s.client.terminated = false → s.client.Queued
  parsed : s.client.terminated = false → s.parsed ++ s.client.waitingData = s.received

theorem inv_start : Inv start := ⟨rfl, fun _ => HttpsClientRequest.queued_start, fun _ => rfl⟩

/-- What the connection calls keeps the bytes of the request. -/
theorem Inv.notify (h : Inv s) (effect : PeerEffect) : Inv (s.notify effect).1 := by
  cases effect with
  | handed bytes =>
    have hsame := s.client.terminated_handleReadData bytes
    refine ⟨h.connection, fun hrunning => ?_, fun hrunning => ?_⟩
    · exact (h.queued (hsame ▸ hrunning)).handleReadData bytes
    · show s.parsed ++ (s.client.handleReadData bytes).waitingData = s.received ++ bytes
      rw [(h.queued (hsame ▸ hrunning)).waitingData_handleReadData, ← List.append_assoc,
        h.parsed (hsame ▸ hrunning)]
  | released => exact ⟨h.connection, h.queued, h.parsed⟩

theorem Inv.notifyAll (h : Inv s) (effects : List PeerEffect) : Inv (s.notifyAll effects).1 := by
  induction effects generalizing s with
  | nil => exact h
  | cons effect effects ih => exact ih (h.notify effect)

/-- **A step keeps every byte.** -/
theorem Inv.step (h : Inv s) (event : ClientStep) :
    Inv (next ClientConnection.step s event) := by
  rw [next, ClientConnection.step.eq_def]
  split
  case isTrue => exact h
  case isFalse hrunning =>
    cases event with
    | connection event =>
      have hmoved : Inv { s with connection := next PeerConnection.step s.connection event } :=
        ⟨h.connection.step event, h.queued, h.parsed⟩
      exact hmoved.notifyAll _
    | sendRequest =>
      dsimp only
      split
      · exact ⟨h.connection, h.queued, h.parsed⟩
      · exact ⟨h.connection, h.queued, h.parsed⟩
    | runReader =>
      have hrunning := Bool.eq_false_of_not_eq_true hrunning
      refine ⟨h.connection, fun hend => ?_, fun hend => ?_⟩
      · exact ((h.queued hrunning).runReader hend).1
      · show s.parsed ++ s.client.reader.data ++ s.client.runReader.1.waitingData = s.received
        rw [List.append_assoc, ((h.queued hrunning).runReader hend).2, h.parsed hrunning]

/-- **What a dispatch comes to**: the connection is released, with what its handler has read. -/
theorem notifyAll_dispatch (s : ClientConnection) (mask : EventMask) (bytes : List UInt8)
    (removed : Bool) (hbytes : ¬ (mask.hangsUp = false ∧ mask.epollIn = true) → bytes = []) :
    (s.notifyAll ((if mask.hangsUp = false ∧ mask.epollIn = true then [.handed bytes] else []) ++
      if removed = true then [.released] else [])).2 =
      if removed = true then
        [.released s.connection s.client.responseFutures s.parsed (s.received ++ bytes)]
      else [] := by
  by_cases hread : mask.hangsUp = false ∧ mask.epollIn = true
  · rw [if_pos hread]
    cases removed with
    | false => rfl
    | true =>
      show [ClientEffect.released s.connection (s.client.handleReadData bytes).responseFutures
        s.parsed (s.received ++ bytes)] = _
      rw [HttpsClientRequest.responseFutures_handleReadData]
      rfl
  · rw [if_neg hread, hbytes hread, List.append_nil]
    cases removed <;> rfl

theorem Inv.delivered_dispatch (h : Inv s) (hrunning : s.client.terminated = false)
    (mask : EventMask) (taken : ℕ) (readFails writeFails : Bool) :
    let moved := s.connection.step (.dispatch mask taken readFails writeFails)
    (∀ effect ∈ ({ s with connection := moved.1 }.notifyAll moved.2).2, effect.Delivered) ↔
      s.ReadFirst (.connection (.dispatch mask taken readFails writeFails)) := by
  intro moved
  have hmoved : moved = if s.connection.registered = true then
      s.connection.dispatch mask taken readFails writeFails else (s.connection, []) := rfl
  have hreceived := h.parsed hrunning
  have hsent : s.connection.handled ++ s.connection.passed mask taken ++
      s.connection.left mask taken = s.connection.sent := by
    rw [List.append_assoc, PeerConnection.passed_append_left, h.connection]
  rw [ReadFirst]
  cases hregistered : s.connection.registered with
  | false =>
    rw [hmoved, hregistered]
    exact iff_of_true (fun _ hmem => absurd hmem List.not_mem_nil) fun _ hfalse => by cases hfalse
  | true =>
    have hpassed : ¬ (mask.hangsUp = false ∧ mask.epollIn = true) →
        s.connection.passed mask taken = [] := fun hnot => if_neg hnot
    rw [hmoved, if_pos hregistered, PeerConnection.dispatch_eq]
    dsimp only
    rw [notifyAll_dispatch _ _ _ _ hpassed]
    cases hremoves : PeerConnection.removes mask readFails writeFails with
    | false =>
      exact iff_of_true (fun _ hmem => absurd hmem List.not_mem_nil) fun _ _ _ hfalse => by
        cases hfalse
    | true =>
      have hhandled : s.connection.handled ++ s.connection.passed mask taken = s.connection.sent ↔
          s.connection.left mask taken = [] := by
        rw [← hsent]
        exact List.self_eq_append_right
      have hparsed : s.parsed = s.received ++ s.connection.passed mask taken ↔
          s.client.waitingData ++ s.connection.passed mask taken = [] := by
        rw [← hreceived, List.append_assoc]
        exact List.self_eq_append_right
      rw [← hhandled, ← hparsed]
      exact ⟨fun hall _ _ hpeer _ => hall _ (List.mem_singleton_self _) hpeer,
        fun hread effect hmem => (List.mem_singleton.mp hmem) ▸ fun hpeer =>
          hread hrunning rfl hpeer rfl⟩

theorem Inv.delivered_delFd (h : Inv s) (hrunning : s.client.terminated = false) :
    (∀ effect ∈ ({ s with connection := (s.connection.step .delFd).1 }.notifyAll
        (s.connection.step .delFd).2).2, effect.Delivered) ↔
      s.ReadFirst (.connection .delFd) := by
  have hparsed : s.parsed = s.received ↔ s.client.waitingData = [] := by
    rw [← h.parsed hrunning]
    exact List.self_eq_append_right
  rw [PeerConnection.step, ReadFirst]
  cases hregistered : s.connection.registered with
  | false =>
    exact iff_of_true (fun _ hmem => absurd hmem List.not_mem_nil) fun _ hfalse => by cases hfalse
  | true =>
    rw [← h.connection.handled_eq_iff, ← hparsed]
    exact ⟨fun hall _ _ hpeer => hall _ (List.mem_singleton_self _) hpeer,
      fun hread effect hmem => (List.mem_singleton.mp hmem) ▸ fun hpeer =>
        hread hrunning rfl hpeer⟩

/-- **A step delivers exactly when nothing is left.** -/
theorem Inv.delivered_iff (h : Inv s) (event : ClientStep) :
    (∀ effect ∈ (s.step event).2, effect.Delivered) ↔ s.ReadFirst event := by
  cases hrunning : s.client.terminated with
  | true =>
    have hnone : (s.step event).2 = [] := by rw [ClientConnection.step.eq_def, if_pos hrunning]
    rw [hnone]
    refine iff_of_true (fun _ hmem => absurd hmem List.not_mem_nil) ?_
    rw [ReadFirst.eq_def]
    split
    · intro hfalse
      rw [hrunning] at hfalse
      cases hfalse
    · intro hfalse
      rw [hrunning] at hfalse
      cases hfalse
    · trivial
  | false =>
    rw [ClientConnection.step.eq_def, if_neg (by simp [hrunning])]
    cases event with
    | sendRequest | runReader =>
      exact iff_of_true (fun _ hmem => absurd hmem List.not_mem_nil) trivial
    | connection event =>
      cases event with
      | register | peerSends | peerCloses =>
        exact iff_of_true (fun _ hmem => absurd hmem List.not_mem_nil) trivial
      | dispatch mask taken readFails writeFails =>
        exact h.delivered_dispatch hrunning mask taken readFails writeFails
      | delFd => exact h.delivered_delFd hrunning

/-- **Bytes sent before a close are delivered exactly when nothing is left.**  On every connection,
whatever its peer does and its handlers return, all that a peer sent before it closed has been read
when `release` is called if and only if each removal finds the socket read; and on the connections
of an `HttpsClientRequest` it has moreover been parsed before a request fails if and only if the
reader has then taken all that was read. -/
theorem delivered_iff_of_run (events : List PeerStep) (steps : List ClientStep) :
    (Along (next PeerConnection.step) PeerConnection.Delivered .start events ↔
        Along (next PeerConnection.step) PeerConnection.ReadFirst .start events) ∧
      (Along (next step) (fun s event => ∀ effect ∈ (s.step event).2, effect.Delivered) start
          steps ↔
        Along (next step) ReadFirst start steps) := by
  have hbytes : ∀ s event, PeerConnection.Conserved s → True → PeerConnection.ReadFirst s event →
      PeerConnection.Conserved (next PeerConnection.step s event) :=
    fun _ event hs _ _ => hs.step event
  have hkeep : ∀ s event, Inv s → True → ReadFirst s event → Inv (next step s event) :=
    fun _ event hs _ _ => hs.step event
  exact ⟨along_iff_of_invariant hbytes (fun _ event hs _ => hs.delivered_iff event)
      PeerConnection.conserved_start (along_of_forall (fun _ _ => trivial) _ _),
    along_iff_of_invariant hkeep (fun _ event hs _ => hs.delivered_iff event) inv_start
      (along_of_forall (fun _ _ => trivial) _ _)⟩

/-- A response and the end of the connection are reported together. -/
def closedAtOnceRun : List ClientStep :=
  [.runReader, .connection .register, .sendRequest, .connection (.peerSends [104, 105]),
    .connection (.peerCloses false),
    .connection (.dispatch ⟨true, false, false, true, true⟩ 2 false false)]

/-- The end of the connection is reported when the response was read, before the reader's task. -/
def closedBeforeTaskRun : List ClientStep :=
  [.runReader, .connection .register, .sendRequest, .connection (.peerSends [104, 105]),
    .connection (.dispatch ⟨true, false, false, false, false⟩ 2 false false),
    .connection (.peerCloses true),
    .connection (.dispatch ⟨true, false, false, false, true⟩ 2 false false)]

/-- **The response is lost**, in either way. -/
theorem closed_not_delivered :
    (Along (next step) Consistent start closedAtOnceRun ∧
      ¬ Along (next step) (fun s event => ∀ effect ∈ (s.step event).2, effect.Delivered) start
        closedAtOnceRun) ∧
    Along (next step) Consistent start closedBeforeTaskRun ∧
      ¬ Along (next step) (fun s event => ∀ effect ∈ (s.step event).2, effect.Delivered) start
        closedBeforeTaskRun := by
  decide

end ClientConnection

end TradingEngine
