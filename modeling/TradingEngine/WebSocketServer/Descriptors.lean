import TradingEngine.WebSocketServer.OnConnect

/-!
# WebSocketServer/Descriptors — the entries of a descriptor that is used again

`on_disconnect` reads the route of its descriptor, waits for the route, and clears the entry
afterwards, whoever has the descriptor by then.  If it never does so late, the entries of every
client that was accepted are its own (`entries_kept`).
-/

namespace TradingEngine

open ServerTask WebSocket

/-- The descriptor whose `on_disconnect` a callback belongs to. -/
def ServerTask.disconnects {size : ℕ} : ServerTask size → Option ℕ
  | .ioOnDisconnect fd _ => some fd
  | .onDisconnect fd _ => some fd
  | .routeOnDisconnect fd => some fd
  | .onDisconnectReturns fd => some fd
  | _ => none

namespace HttpsWebsocketServer

variable {size : ℕ} (setup : WebsocketSetup)

/-- **The entries of a descriptor are those of the client that has it**: once its `on_connect` has
returned true and every `on_disconnect` of the descriptor has ended, the two tables refer to its
connection and to its route, and a message is dispatched to that route. -/
def EntriesKept (server : HttpsWebsocketServer size) : Prop :=
  ∀ o c fd, server.clients o = some c → (server.objects o).descriptor = some fd →
    c ∈ server.approved → (∀ t ∈ server.queue ++ server.waiting, t.disconnects ≠ some fd) →
      server.connectionsByFd fd = some o ∧
        server.routesByFd fd =
          setup.routes (.ofPath (server.objects o).upgradeRequest.path) ∧
        ∀ conn message, server.onMessage fd conn message =
          (setup.routes (.ofPath (server.objects o).upgradeRequest.path)).toList.map
            fun route => ⟨route, fd, conn, message⟩

variable {setup} {server : HttpsWebsocketServer size}

theorem Inv.entriesKept {Taken : Prop} (h : Inv False Taken setup server) :
    EntriesKept setup server := by
  intro o c fd ho hfd happroved _
  have hlabel : c ∈ server.labels := List.mem_append_right _ happroved
  rcases h.phases o c fd ho hfd with hidle | ⟨k, s, hconnecting⟩ | hdone
  · exact absurd hlabel hidle.label
  · -- the client would have two of the names
    have hown : c ∈ server.queue.filterMap ServerTask.connecting :=
      List.mem_filterMap.mpr ⟨_, hconnecting.own, connecting_onConnectTask _ o c fd k s⟩
    have hcount := h.wf.labels c
    simp only [HttpsWebsocketServer.labels, List.count_append] at hcount
    have hone := List.count_pos_iff.mpr hown
    have htwo := List.count_pos_iff.mpr happroved
    omega
  · have hroute := hdone.route.resolve_right fun hlate => hlate.1
    exact ⟨hdone.connection, hroute, fun conn message => by rw [onMessage, hroute]⟩

/-- The step keeps the entries: every descriptor has some, and no `on_disconnect` ends late. -/
def KeepsEntries (server : HttpsWebsocketServer size) (event : WebsocketEvent size) : Prop :=
  event.InTables ∧ server.NoLateEnd event

instance (server : HttpsWebsocketServer size) : DecidablePred server.KeepsEntries :=
  fun _ => inferInstanceAs (Decidable (_ ∧ _))

/-- **In every run in which no `on_disconnect` ends behind the `on_connect` of the next client** of
its descriptor, and the tables reach the descriptors, the entries are kept in every state. -/
theorem entries_kept (setup : WebsocketSetup) {events : List (WebsocketEvent size)}
    (h : Run.Along (Run.next (step setup)) KeepsEntries (start size) events) :
    EntriesKept setup (runEnd setup size events) := by
  have hinv : Inv False True setup (runEnd setup size events) :=
    Run.exec_of_invariant (I := Inv False True setup)
      (fun server event hserver hevent => hserver.step (.inr hevent.2) (.inl trivial)) inv_start h
  exact hinv.entriesKept

/-- It goes, its `on_disconnect` comes to the route, and the next client is accepted on the same
descriptor; the first `on_disconnect` ends in front of the second `on_connect`. -/
def reusedRun : List (WebsocketEvent 2) :=
  orderRun ++ [.disconnect firstObject, .runTask, .runTask, .runTask, .accept 5,
    .handleRead secondObject [.upgradeRead], .routeReturns 0, .runTask, .runTask, .runTask,
    .runTask, .runTask, .routeReturns 0, .runTask]

theorem entries_kept_reusedRun :
    (1 ∈ (runEnd orderSetup 2 reusedRun).approved ∧
      (runEnd orderSetup 2 reusedRun).clients 1 = some 1) ∧
      EntriesKept orderSetup (runEnd orderSetup 2 reusedRun) := by
  refine ⟨?_, entries_kept orderSetup ?_⟩
  · rw [reusedRun, orderRun, ReadResult.upgradeRead, WebsocketUpgradeRequest.orderUpgrade,
      Ascii.text_ofList, Ascii.text_ofList]
    decide +kernel
  · rw [reusedRun, orderRun, ReadResult.upgradeRead, WebsocketUpgradeRequest.orderUpgrade,
      Ascii.text_ofList, Ascii.text_ofList]
    decide +kernel

/-- The next client is upgraded at once, and the two callbacks take turns. -/
def lateEndRun : List (WebsocketEvent 2) :=
  orderRun ++ [.disconnect firstObject, .accept 5, .handleRead secondObject [.upgradeRead],
    .runTask, .runTask, .runTask,
    .runTask, .runTask, .routeReturns 0, .runTask, .runTask, .runTask, .routeReturns 0, .runTask]

/-- The end of the first `on_disconnect` clears the route of the second client. -/
theorem lateEndRun_not_entriesKept :
    ¬ ∀ (size : ℕ) (setup : WebsocketSetup) (events : List (WebsocketEvent size)),
      EntriesKept setup (runEnd setup size events) := by
  intro h
  obtain ⟨ho, hfd, happroved, hended, hroute⟩ :
      (runEnd orderSetup 2 lateEndRun).clients 1 = some 1 ∧
      ((runEnd orderSetup 2 lateEndRun).objects 1).descriptor = some 5 ∧
      1 ∈ (runEnd orderSetup 2 lateEndRun).approved ∧
      (∀ t ∈ (runEnd orderSetup 2 lateEndRun).queue ++ (runEnd orderSetup 2 lateEndRun).waiting,
        t.disconnects ≠ some 5) ∧
      (runEnd orderSetup 2 lateEndRun).routesByFd 5 ≠ orderSetup.routes
        (.ofPath ((runEnd orderSetup 2 lateEndRun).objects 1).upgradeRequest.path) := by
    decide +kernel
  exact hroute (h 2 orderSetup lateEndRun 1 1 5 ho hfd happroved hended).2.1

end HttpsWebsocketServer

end TradingEngine
