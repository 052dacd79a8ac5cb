import Mathlib.Data.List.Perm.Basic
import TradingEngine.Machinery.TaskQueue
import TradingEngine.WebSocketServer.Server

/-!
# WebSocketServer/Callbacks — the order in which the callbacks of the server run

`Ran` says once what a coroutine can do.  A callback has a place in the queue, the number of its
chain and its stage; `Wf` keeps the queue in the order of `Machinery/TaskQueue`, gives every client
at most one `on_connect`, and keeps the pool and the clients apart.
-/

namespace TradingEngine

open HttpWebsocketConnectionIO WebSocket

namespace ServerTask

variable {size : ℕ}

/-- The place of a callback: its chain, and how far it is. -/
def place : ServerTask size → Option (ℕ × ℕ)
  | .runOnConnect _ _ chain => some (chain, 0)
  | .ioOnConnect _ _ _ chain => some (chain, 1)
  | .onConnect _ _ _ chain _ _ => some (chain, 2)
  | .runOnMessage _ _ chain _ => some (chain, 0)
  | .ioOnMessage _ _ chain _ => some (chain, 1)
  | .onMessage _ _ chain _ => some (chain, 2)
  | .ioOnDisconnect _ chain => some (chain, 0)
  | .onDisconnect _ chain => some (chain, 1)
  | _ => none

/-- The client whose `on_connect` is under way, or has been rejected. -/
def connecting : ServerTask size → Option ℕ
  | .runOnConnect _ conn _ => some conn
  | .ioOnConnect _ _ conn _ => some conn
  | .onConnect _ _ conn _ _ _ => some conn
  | .routeOnConnect _ conn => some conn
  | .onConnectReturns _ conn => some conn
  | .ioOnConnectReturns _ conn (some _) => some conn
  | .runOnConnectReturns _ conn (some _) => some conn
  | _ => none

/-- A callback that writes the entries of a descriptor; `run_on_connect` has those of the descriptor
of its object written. -/
def Touches (o : Fin size) (fd : ℕ) : ServerTask size → Prop
  | .runOnConnect o' _ _ => o' = o
  | .ioOnConnect _ fd' _ _ => fd' = fd
  | .onConnect _ fd' _ _ _ _ => fd' = fd
  | .ioOnDisconnect fd' _ => fd' = fd
  | .onDisconnect fd' _ => fd' = fd
  | _ => False

theorem Touches.place {o : Fin size} {fd : ℕ} {task : ServerTask size} (h : Touches o fd task) :
    ∃ n k, task.place = some (n, k) ∧ k ≤ 2 := by
  cases task with
  | runOnConnect o' conn chain => exact ⟨chain, 0, rfl, by omega⟩
  | ioOnConnect o' fd' conn chain => exact ⟨chain, 1, rfl, by omega⟩
  | onConnect o' fd' conn chain path token => exact ⟨chain, 2, rfl, le_rfl⟩
  | ioOnDisconnect fd' chain => exact ⟨chain, 0, rfl, by omega⟩
  | onDisconnect fd' chain => exact ⟨chain, 1, rfl, by omega⟩
  | _ => exact h.elim

/-- The end of an `on_disconnect` of a descriptor, which will clear the entry of the route. -/
def Clears (fd : ℕ) (task : ServerTask size) : Prop :=
  task = .routeOnDisconnect fd ∨ task = .onDisconnectReturns fd

instance (fd : ℕ) (task : ServerTask size) : Decidable (Clears fd task) :=
  inferInstanceAs (Decidable (_ ∨ _))

/-- The descriptor whose route is set. -/
def registers : ServerTask size → Option ℕ
  | .onConnect _ fd _ _ _ _ => some fd
  | _ => none

/-- The object that is sent a close frame, and the client it is meant for. -/
def rejects : ServerTask size → Option (Fin size × ℕ)
  | .runOnConnectReturns o conn (some _) => some (o, conn)
  | _ => none

end ServerTask

open ServerTask

namespace HttpsWebsocketServer

variable {size : ℕ} (setup : WebsocketSetup)

/-! ## What a coroutine can do -/

/-- The coroutine that one posts. -/
inductive Next (objects : Fin size → HttpWebsocketConnectionIO) :
    ServerTask size → ServerTask size → Prop
  | runOnConnect {o : Fin size} {fd : ℕ} (conn chain : ℕ)
      (hcallbacks : (objects o).hasCallbacks = true)
      (hfd : (objects o).descriptor = some fd) :
      Next objects (.runOnConnect o conn chain) (.ioOnConnect o fd conn chain)
  | ioOnConnect (o : Fin size) (fd conn chain : ℕ) :
      Next objects (.ioOnConnect o fd conn chain)
        (.onConnect o fd conn chain (objects o).upgradeRequest.path
          (objects o).upgradeRequest.accessToken)
  | rejects {path token reason : List UInt8} (o : Fin size) (fd conn chain : ℕ)
      (h : rejection setup path token = some reason) :
      Next objects (.onConnect o fd conn chain path token)
        (.ioOnConnectReturns o conn (some reason))
  | accepts {path token : List UInt8} (o : Fin size) (fd conn chain : ℕ)
      (h : rejection setup path token = none) :
      Next objects (.onConnect o fd conn chain path token) (.routeOnConnect o conn)
  | onConnectReturns (o : Fin size) (conn : ℕ) :
      Next objects (.onConnectReturns o conn) (.ioOnConnectReturns o conn none)
  | ioOnConnectReturns (o : Fin size) (conn : ℕ) (rejection : Option (List UInt8)) :
      Next objects (.ioOnConnectReturns o conn rejection) (.runOnConnectReturns o conn rejection)
  | runOnMessage {o : Fin size} {fd : ℕ} (conn chain : ℕ) (message : List UInt8)
      (hcallbacks : (objects o).hasCallbacks = true)
      (hfd : (objects o).descriptor = some fd) :
      Next objects (.runOnMessage o conn chain message) (.ioOnMessage fd conn chain message)
  | ioOnMessage (fd conn chain : ℕ) (message : List UInt8) :
      Next objects (.ioOnMessage fd conn chain message) (.onMessage fd conn chain message)
  | ioOnDisconnect (fd chain : ℕ) :
      Next objects (.ioOnDisconnect fd chain) (.onDisconnect fd chain)
  | onDisconnect (fd chain : ℕ) :
      Next objects (.onDisconnect fd chain) (.routeOnDisconnect fd)

/-- **What a coroutine can do**, once it has been taken from the queue. -/
structure Ran (server : HttpsWebsocketServer size) (task : ServerTask size)
    (server' : HttpsWebsocketServer size) : Prop where
  clients : server'.clients = server.clients
  latest : server'.latest = server.latest
  available : server'.available = server.available
  accepted : server'.accepted = server.accepted
  chains : server'.chains = server.chains
  objects : ∀ o, Keeps (server.objects o) (server'.objects o)
  request : ∀ o, (server'.objects o).upgradeRequest = (server.objects o).upgradeRequest
  state : ∀ o, (server'.objects o).state = (server.objects o).state ∨
    ∃ conn reason, task = .runOnConnectReturns o conn (some reason)
  closing : ∀ o c, (server'.objects o).state = .closing → (server.objects o).state = .closing ∨
    (server.clients o = some c → c ∈ server'.closed)
  queue : server'.queue = server.queue ∨
    ∃ next, Next setup server.objects task next ∧ server'.queue = server.queue ++ [next]
  waiting : server'.waiting = server.waiting ∨
    (∃ o conn, task = .routeOnConnect o conn ∧
      server'.waiting = server.waiting ++ [.onConnectReturns o conn]) ∨
    ∃ fd, task = .routeOnDisconnect fd ∧
      server'.waiting = server.waiting ++ [.onDisconnectReturns fd]
  approved : server'.approved = server.approved ∨
    ∃ o conn, task = .onConnectReturns o conn ∧ server'.approved = server.approved ++ [conn]
  closed : server'.closed = server.closed ∨
    ∃ o conn reason, task = .runOnConnectReturns o conn (some reason) ∧
      server'.closed = server.closed ++ (server.clients o).toList
  connections : server'.connectionsByFd = server.connectionsByFd ∨
    (∃ o fd conn chain, task = .ioOnConnect o fd conn chain ∧
      server'.connectionsByFd = Function.update server.connectionsByFd fd (some o)) ∨
    ∃ fd chain, task = .ioOnDisconnect fd chain ∧
      server'.connectionsByFd = Function.update server.connectionsByFd fd none
  routes : server'.routesByFd = server.routesByFd ∨
    (∃ o fd conn chain path token, task = .onConnect o fd conn chain path token ∧
      server'.routesByFd = Function.update server.routesByFd fd (setup.routes (.ofPath path))) ∨
    ∃ fd, task = .onDisconnectReturns fd ∧
      server'.routesByFd = Function.update server.routesByFd fd none

variable {setup} {server server' : HttpsWebsocketServer size} {task next : ServerTask size}

theorem ran_nothing (server : HttpsWebsocketServer size) (task : ServerTask size) :
    Ran setup server task server where
  clients := rfl
  latest := rfl
  available := rfl
  accepted := rfl
  chains := rfl
  objects _ := .refl _
  request _ := rfl
  state _ := .inl rfl
  closing _ _ := .inl
  queue := .inl rfl
  waiting := .inl rfl
  approved := .inl rfl
  closed := .inl rfl
  connections := .inl rfl
  routes := .inl rfl

theorem ran_post (h : Next setup server.objects task next) :
    Ran setup server task (server.post next) :=
  { ran_nothing server task with queue := .inr ⟨next, h, rfl⟩ }

theorem ran_terminated : Ran setup server task { server with terminated := true } :=
  { ran_nothing server task with }

/-- The values of the objects when one of them is given others. -/
theorem objects_setConnection {R : HttpWebsocketConnectionIO → HttpWebsocketConnectionIO → Prop}
    (hrefl : ∀ object, R object object) {o : Fin size} {object : HttpWebsocketConnectionIO}
    (h : R (server.objects o) object) (o' : Fin size) :
    R (server.objects o') ((server.setConnection o object).objects o') := by
  by_cases heq : o' = o
  · subst heq
    simpa [setConnection, setObject] using h
  · simpa [setConnection, setObject, heq] using hrefl _

/-- A connection that is closing has been sent a close frame. -/
theorem closing_setConnection {o o' : Fin size} {object : HttpWebsocketConnectionIO} (c : ℕ)
    (hclosing : ((server.setConnection o object).objects o').state = .closing) :
    (server.objects o').state = .closing ∨
      (server.clients o' = some c → c ∈ (server.setConnection o object).closed) := by
  by_cases heq : o' = o
  · subst heq
    by_cases hbefore : (server.objects o').state = .closing
    · exact .inl hbefore
    · have hafter : object.state = .closing := by
        simpa [setConnection, setObject] using hclosing
      refine .inr fun ho' => ?_
      simp [setConnection, setObject, hbefore, hafter, ho']
  · exact .inl (by simpa [setConnection, setObject, heq] using hclosing)

/-- An object is given other values. -/
theorem ran_setConnection {o : Fin size} {object : HttpWebsocketConnectionIO}
    (hkeeps : Keeps (server.objects o) object)
    (hrequest : object.upgradeRequest = (server.objects o).upgradeRequest)
    (hstate : object.state = (server.objects o).state ∨
      ∃ conn reason, task = .runOnConnectReturns o conn (some reason)) :
    Ran setup server task (server.setConnection o object) := by
  refine
    { ran_nothing server task with
      objects := objects_setConnection .refl hkeeps
      request := objects_setConnection (R := fun a b => b.upgradeRequest = a.upgradeRequest)
        (fun _ => rfl) hrequest
      state := fun o' => ?_
      closing := fun o' c => closing_setConnection c
      closed := ?_ }
  · by_cases heq : o' = o
    · subst heq
      simpa [setConnection, setObject] using hstate
    · exact .inl (by simp [setConnection, setObject, heq])
  · simp only [setConnection]
    split
    · next hclosing =>
      rcases hstate with hstate | ⟨conn, reason, rfl⟩
      · exact absurd (hstate ▸ hclosing.2) hclosing.1
      · exact .inr ⟨o, conn, reason, rfl, rfl⟩
    · exact .inl rfl

/-- **A coroutine does what a coroutine can do.** -/
theorem ran_run (setup : WebsocketSetup) (server : HttpsWebsocketServer size)
    (task : ServerTask size) :
    Ran setup server task (server.run setup task).1 := by
  cases task with
  | runOnConnect o conn chain =>
    simp only [run, runOnConnect]
    split
    · next fd hcallbacks hfd => exact ran_post (.runOnConnect conn chain hcallbacks hfd)
    · exact ran_nothing server _
  | ioOnConnect o fd conn chain =>
    have h : Ran setup server _ (server.post _) := ran_post (.ioOnConnect o fd conn chain)
    exact { h with
      connections := .inr (.inl ⟨o, fd, conn, chain, rfl, rfl⟩) }
  | onConnect o fd conn chain path token =>
    simp only [run, onConnect]
    cases hreason : rejection setup path token with
    | none =>
      have h : Ran setup server _ (server.post _) := ran_post (.accepts o fd conn chain hreason)
      exact { h with
        routes := .inr (.inl ⟨o, fd, conn, chain, path, token, rfl, rfl⟩) }
    | some reason =>
      have h : Ran setup server _ (server.post _) := ran_post (.rejects o fd conn chain hreason)
      exact { h with
        routes := .inr (.inl ⟨o, fd, conn, chain, path, token, rfl, rfl⟩) }
  | routeOnConnect o conn =>
    exact { ran_nothing server _ with waiting := .inr (.inl ⟨o, conn, rfl, rfl⟩) }
  | onConnectReturns o conn =>
    have h : Ran setup server _ (server.post _) := ran_post (.onConnectReturns o conn)
    exact { h with approved := .inr ⟨o, conn, rfl, rfl⟩ }
  | ioOnConnectReturns o conn rejection => exact ran_post (.ioOnConnectReturns o conn rejection)
  | runOnConnectReturns o conn rejection =>
    cases rejection with
    | none => exact ran_nothing server _
    | some reason =>
      simp only [run, runOnConnectReturns]
      cases hobject : (server.objects o).writeClose 1008 reason with
      | none => exact ran_terminated
      | some object =>
        obtain ⟨hkeeps, hrequest⟩ := writeClose_spec hobject
        exact ran_setConnection hkeeps hrequest (.inr ⟨conn, reason, rfl⟩)
  | runOnMessage o conn chain message =>
    simp only [run, runOnMessage]
    split
    · next fd hcallbacks hfd => exact ran_post (.runOnMessage conn chain message hcallbacks hfd)
    · exact ran_nothing server _
  | ioOnMessage fd conn chain message => exact ran_post (.ioOnMessage fd conn chain message)
  | onMessage fd conn chain message => exact ran_nothing server _
  | ioOnDisconnect fd chain =>
    have h : Ran setup server _ (server.post _) := ran_post (.ioOnDisconnect fd chain)
    exact { h with connections := .inr (.inr ⟨fd, chain, rfl, rfl⟩) }
  | onDisconnect fd chain =>
    simp only [run, onDisconnect]
    split
    · exact ran_nothing server _
    · exact ran_post (.onDisconnect fd chain)
  | routeOnDisconnect fd =>
    exact { ran_nothing server _ with waiting := .inr (.inr ⟨fd, rfl, rfl⟩) }
  | onDisconnectReturns fd =>
    exact { ran_nothing server _ with routes := .inr (.inr ⟨fd, rfl, rfl⟩) }
  | writeToConnection fd message =>
    simp only [run, writeToConnection]
    split
    · exact ran_nothing server _
    · next o ho =>
      cases hobject : (server.objects o).writeText message with
      | none => exact ran_terminated
      | some object =>
        obtain ⟨hkeeps, hrequest, hstate⟩ := writeText_spec hobject
        exact ran_setConnection hkeeps hrequest (.inl hstate)

/-! ## One coroutine after the other -/

section Next

variable {objects : Fin size → HttpWebsocketConnectionIO} {a b : ServerTask size}

theorem Next.place_eq (h : Next setup objects a b) :
    b.place = none ∨ ∃ n k, a.place = some (n, k) ∧ b.place = some (n, k + 1) := by
  cases h with
  | runOnConnect conn chain _ _ => exact .inr ⟨chain, 0, rfl, rfl⟩
  | ioOnConnect o fd conn chain => exact .inr ⟨chain, 1, rfl, rfl⟩
  | runOnMessage conn chain message _ _ => exact .inr ⟨chain, 0, rfl, rfl⟩
  | ioOnMessage fd conn chain message => exact .inr ⟨chain, 1, rfl, rfl⟩
  | ioOnDisconnect fd chain => exact .inr ⟨chain, 0, rfl, rfl⟩
  | _ => exact .inl rfl

theorem Next.connecting (h : Next setup objects a b) {c : ℕ} (hb : b.connecting = some c) :
    a.connecting = some c := by
  cases h with
  | ioOnConnectReturns o conn rejection => cases rejection <;> exact hb
  | onConnectReturns o conn => cases hb
  | runOnMessage conn chain message _ _ => cases hb
  | ioOnMessage fd conn chain message => cases hb
  | ioOnDisconnect fd chain => cases hb
  | onDisconnect fd chain => cases hb
  | _ => exact hb

theorem Next.ne_runOnMessage (h : Next setup objects a b) (o : Fin size) (conn chain : ℕ)
    (message : List UInt8) : b ≠ .runOnMessage o conn chain message := by
  cases h <;> simp

/-- What a coroutine posts touches no more than it does itself. -/
theorem Next.touches (h : Next setup objects a b) {o : Fin size} {fd : ℕ}
    (hdistinct : ∀ o', (objects o').hasCallbacks = true →
      (objects o').descriptor = some fd → o' = o)
    (hb : Touches o fd b) : Touches o fd a := by
  cases h with
  | runOnConnect conn chain hcallbacks hfd => exact hdistinct _ hcallbacks (hb ▸ hfd)
  | ioOnConnect o fd conn chain => exact hb
  | ioOnDisconnect fd chain => exact hb
  | _ => exact hb.elim

theorem Next.clears (h : Next setup objects a b) {fd : ℕ} (hb : Clears fd b) :
    ∃ chain, a = .onDisconnect fd chain := by
  cases h with
  | onDisconnect fd' chain =>
    rcases hb with hb | hb <;> cases hb
    exact ⟨chain, rfl⟩
  | _ => rcases hb with hb | hb <;> cases hb

end Next

/-- The clients whose `on_connect` is under way, has been rejected, or has returned true. -/
def labels (server : HttpsWebsocketServer size) : List ℕ :=
  server.queue.filterMap ServerTask.connecting ++ server.waiting.filterMap ServerTask.connecting ++
    server.approved

/-- A coroutine hands the name of its client on. -/
theorem Ran.count_labels (h : Ran setup server task server') (c : ℕ) :
    server'.labels.count c ≤ (task.connecting.toList ++ server.labels).count c := by
  simp only [labels, List.count_append]
  rcases h.waiting with hwaiting | ⟨o, conn, rfl, hwaiting⟩ | ⟨fd, rfl, hwaiting⟩
  · rcases h.approved with happroved | ⟨o, conn, rfl, happroved⟩
    · rw [hwaiting, happroved]
      rcases h.queue with hqueue | ⟨next, hnext, hqueue⟩
      · rw [hqueue]
        omega
      · rw [hqueue, List.filterMap_append, List.count_append]
        cases hlabel : next.connecting with
        | none =>
          rw [List.filterMap_cons_none hlabel, List.filterMap_nil, List.count_nil]
          omega
        | some c' =>
          rw [List.filterMap_cons_some hlabel, List.filterMap_nil, hnext.connecting hlabel,
            Option.toList_some]
          omega
    · rw [hwaiting, happroved, List.count_append]
      rcases h.queue with hqueue | ⟨next, hnext, hqueue⟩
      · rw [hqueue, ServerTask.connecting, Option.toList_some]
        omega
      · cases hnext with
        | onConnectReturns =>
          simp only [hqueue, List.filterMap_append, ServerTask.connecting, List.filterMap_cons,
            List.filterMap_nil, List.append_nil, Option.toList_some]
          omega
  · rcases h.approved with happroved | ⟨o, conn, heq, -⟩
    · rcases h.queue with hqueue | ⟨next, hnext, -⟩
      · simp only [hwaiting, happroved, hqueue, List.filterMap_append, List.count_append,
          ServerTask.connecting, List.filterMap_cons, List.filterMap_nil, Option.toList_some]
        omega
      · cases hnext
    · cases heq
  · rcases h.approved with happroved | ⟨o, conn, heq, -⟩
    · rcases h.queue with hqueue | ⟨next, hnext, -⟩
      · simp only [hwaiting, happroved, hqueue, List.filterMap_append, ServerTask.connecting,
          List.filterMap_cons, List.filterMap_nil, List.append_nil]
        omega
      · cases hnext
    · cases heq

/-! ## The clients, the pool and the queue -/

/-- **The invariant of every run.** -/
structure Wf (server : HttpsWebsocketServer size) : Prop where
  hasCallbacks : ∀ o, (server.objects o).hasCallbacks = (server.clients o).isSome
  descriptor : ∀ o c, server.clients o = some c → (server.objects o).descriptor ≠ none
  distinct : ∀ o o' c c' fd, server.clients o = some c → server.clients o' = some c' →
    (server.objects o).descriptor = some fd → (server.objects o').descriptor = some fd → o = o'
  inj : ∀ o o' c, server.clients o = some c → server.clients o' = some c → o = o'
  free : ∀ o ∈ server.available, server.clients o = none
  nodup : server.available.Nodup
  latest : ∀ o c, server.clients o = some c → server.latest o = some c
  below : ∀ o c, server.latest o = some c → c < server.accepted
  ordered : TaskQueue.Ordered place server.queue
  chains : ∀ t ∈ server.queue, ∀ p ∈ t.place, p.1 < server.chains
  waiting : ∀ t ∈ server.waiting, t.place = none
  labels : ∀ c, server.labels.count c ≤ 1
  labelsBelow : ∀ c ∈ server.labels, c < server.accepted
  messages : ∀ o c chain message, .runOnMessage o c chain message ∈ server.queue →
    c < server.accepted ∧
      (server.clients o = some c → (server.objects o).state ≠ .waitingHttpUpgrade)

theorem wf_start : Wf (start size) where
  hasCallbacks _ := rfl
  descriptor _ _ h := by cases h
  distinct _ _ _ _ _ h := by cases h
  inj _ _ _ h := by cases h
  free _ _ := rfl
  nodup := List.nodup_finRange size
  latest _ _ h := by cases h
  below _ _ h := by cases h
  ordered := TaskQueue.ordered_nil
  chains _ h := by cases h
  waiting _ h := by cases h
  labels _ := Nat.zero_le _
  labelsBelow _ h := by cases h
  messages _ _ _ _ h := by cases h

/-- The object that has a descriptor. -/
theorem Wf.eq_of_descriptor (h : Wf server) {o o' : Fin size} {c fd : ℕ}
    (ho : server.clients o = some c) (hfd : (server.objects o).descriptor = some fd)
    (hcallbacks : (server.objects o').hasCallbacks = true)
    (hfd' : (server.objects o').descriptor = some fd) : o' = o := by
  rw [h.hasCallbacks, Option.isSome_iff_exists] at hcallbacks
  obtain ⟨c', ho'⟩ := hcallbacks
  exact h.distinct o' o c' c fd ho' ho hfd' hfd

/-! ### A coroutine -/

/-- The server with its queue behind the front. -/
def popped (server : HttpsWebsocketServer size) (queue : List (ServerTask size)) :
    HttpsWebsocketServer size := { server with queue := queue }

/-- What is in the queue after a coroutine has run. -/
theorem Ran.mem_queue {rest : List (ServerTask size)}
    (h : Ran setup (server.popped rest) task server') {t : ServerTask size}
    (ht : t ∈ server'.queue) : t ∈ rest ∨ Next setup server.objects task t := by
  rcases h.queue with hqueue | ⟨next, hnext, hqueue⟩
  · rw [hqueue] at ht
    exact .inl ht
  · rw [hqueue, List.mem_append, List.mem_singleton] at ht
    rcases ht with ht | rfl
    · exact .inl ht
    · exact .inr hnext

theorem Ran.subset {rest : List (ServerTask size)}
    (h : Ran setup (server.popped rest) task server') {t : ServerTask size} (ht : t ∈ rest) :
    t ∈ server'.queue := by
  rcases h.queue with hqueue | ⟨next, hnext, hqueue⟩
  · exact hqueue ▸ ht
  · exact hqueue ▸ List.mem_append_left _ ht

/-- Taking a task from the queue takes the name of its client. -/
theorem count_labels_cons {rest : List (ServerTask size)} (hqueue : server.queue = task :: rest)
    (c : ℕ) : (task.connecting.toList ++ (server.popped rest).labels).count c =
      server.labels.count c := by
  rw [HttpsWebsocketServer.labels, HttpsWebsocketServer.labels, hqueue]
  cases hlabel : task.connecting with
  | none => rw [List.filterMap_cons_none hlabel, Option.toList_none, List.nil_append]; rfl
  | some c' =>
    rw [List.filterMap_cons_some hlabel, Option.toList_some]
    simp only [popped, List.cons_append, List.nil_append]

theorem Ran.labels_le {rest : List (ServerTask size)} (hqueue : server.queue = task :: rest)
    (h : Ran setup (server.popped rest) task server') (c : ℕ) :
    server'.labels.count c ≤ server.labels.count c :=
  (h.count_labels c).trans (count_labels_cons hqueue c).le

theorem Ran.labels_subset {rest : List (ServerTask size)} (hqueue : server.queue = task :: rest)
    (h : Ran setup (server.popped rest) task server') {c : ℕ} (hc : c ∈ server'.labels) :
    c ∈ server.labels :=
  List.count_pos_iff.mp ((List.count_pos_iff.mpr hc).trans_le (h.labels_le hqueue c))

theorem Wf.run {rest : List (ServerTask size)} (hwf : Wf server)
    (hqueue : server.queue = task :: rest) (h : Ran setup (server.popped rest) task server') :
    Wf server' where
  hasCallbacks o := by
    rw [h.clients, (h.objects o).hasCallbacks]
    exact hwf.hasCallbacks o
  descriptor o c ho := by
    rw [h.clients] at ho
    rw [(h.objects o).descriptor]
    exact hwf.descriptor o c ho
  distinct o o' c c' fd ho ho' hfd hfd' := by
    rw [h.clients] at ho ho'
    rw [(h.objects _).descriptor] at hfd hfd'
    exact hwf.distinct o o' c c' fd ho ho' hfd hfd'
  inj o o' c ho ho' := by
    rw [h.clients] at ho ho'
    exact hwf.inj o o' c ho ho'
  free o ho := by
    rw [h.available] at ho
    rw [h.clients]
    exact hwf.free o ho
  nodup := h.available ▸ hwf.nodup
  latest o c ho := by
    rw [h.clients] at ho
    rw [h.latest]
    exact hwf.latest o c ho
  below o c ho := by
    rw [h.latest] at ho
    rw [h.accepted]
    exact hwf.below o c ho
  ordered := by
    have hordered := hqueue ▸ hwf.ordered
    rcases h.queue with hq | ⟨next, hnext, hq⟩
    · exact hq ▸ hordered.tail
    · rw [hq]
      rcases hnext.place_eq with hplace | ⟨n, k, hplace, hnextPlace⟩
      · exact hordered.tail.post hplace
      · exact hordered.advance hplace hnextPlace
  chains t ht p hp := by
    rw [h.chains]
    rcases h.mem_queue ht with ht | hnext
    · exact hwf.chains t (hqueue ▸ List.mem_cons_of_mem _ ht) p hp
    · rcases hnext.place_eq with hplace | ⟨n, k, hplace, hnextPlace⟩
      · rw [hplace] at hp
        cases hp
      · rw [hnextPlace] at hp
        cases hp
        exact hwf.chains task (hqueue ▸ List.mem_cons_self) (n, k) hplace
  waiting t ht := by
    rcases h.waiting with hsame | ⟨o, conn, rfl, hupdate⟩ | ⟨fd, rfl, hupdate⟩
    · exact hwf.waiting t (hsame ▸ ht)
    all_goals
      rw [hupdate, List.mem_append, List.mem_singleton] at ht
      rcases ht with ht | rfl
      · exact hwf.waiting t ht
      · rfl
  labels c := (h.labels_le hqueue c).trans (hwf.labels c)
  labelsBelow c hc := by
    rw [h.accepted]
    exact hwf.labelsBelow c (h.labels_subset hqueue hc)
  messages o c chain message hmem := by
    rcases h.mem_queue hmem with hmem | hnext
    · obtain ⟨hbelow, hopen⟩ :=
        hwf.messages o c chain message (hqueue ▸ List.mem_cons_of_mem _ hmem)
      rw [h.accepted, h.clients]
      exact ⟨hbelow, fun ho => (h.objects o).isOpen (hopen ho)⟩
    · exact absurd rfl (hnext.ne_runOnMessage o c chain message)

/-! ### The other operations -/

/-- A coroutine that has no place and no client is posted. -/
theorem Wf.post (hwf : Wf server) (hplace : task.place = none) (hlabel : task.connecting = none) :
    Wf (server.post task) :=
  { hwf with
    ordered := hwf.ordered.post hplace
    chains := fun t ht p hp => by
      rcases List.mem_append.mp ht with ht | ht
      · exact hwf.chains t ht p hp
      · rw [List.mem_singleton.mp ht, hplace] at hp
        cases hp
    labels := fun c => by
      simpa [HttpsWebsocketServer.labels, HttpsWebsocketServer.post, hlabel] using hwf.labels c
    labelsBelow := fun c hc => hwf.labelsBelow c <| by
      simpa [HttpsWebsocketServer.labels, HttpsWebsocketServer.post, hlabel] using hc
    messages := fun o c chain message hmem => by
      rcases List.mem_append.mp hmem with hmem | hmem
      · exact hwf.messages o c chain message hmem
      · rw [← List.mem_singleton.mp hmem] at hplace
        cases hplace }

/-- The handler of a route returns: its coroutine goes from the waiting ones to the queue. -/
def returned (server : HttpsWebsocketServer size) (i : ℕ) (task : ServerTask size) :
    HttpsWebsocketServer size :=
  { server with waiting := server.waiting.eraseIdx i }.post task

theorem count_labels_returned {i : ℕ} (hi : server.waiting[i]? = some task) (c : ℕ) :
    (server.returned i task).labels.count c = server.labels.count c := by
  obtain ⟨hlt, rfl⟩ := List.getElem?_eq_some_iff.mp hi
  have hperm := ((List.getElem_cons_eraseIdx_perm hlt).filterMap ServerTask.connecting).count_eq c
  simp only [HttpsWebsocketServer.labels, returned, HttpsWebsocketServer.post,
    List.filterMap_append, List.count_append]
  have hcons : (server.waiting[i] :: server.waiting.eraseIdx i).filterMap ServerTask.connecting =
      [server.waiting[i]].filterMap ServerTask.connecting ++
        (server.waiting.eraseIdx i).filterMap ServerTask.connecting := by
    rw [← List.filterMap_append]
    rfl
  rw [hcons, List.count_append] at hperm
  omega

theorem Wf.returned (hwf : Wf server) {i : ℕ} (hi : server.waiting[i]? = some task) :
    Wf (server.returned i task) :=
  have hplace : task.place = none := hwf.waiting task (List.mem_of_getElem? hi)
  { hwf with
    ordered := hwf.ordered.post hplace
    chains := fun t ht p hp => by
      rcases List.mem_append.mp ht with ht | ht
      · exact hwf.chains t ht p hp
      · rw [List.mem_singleton.mp ht, hplace] at hp
        cases hp
    waiting := fun t ht => hwf.waiting t (List.mem_of_mem_eraseIdx ht)
    labels := fun c => (count_labels_returned hi c).trans_le (hwf.labels c)
    labelsBelow := fun c hc => hwf.labelsBelow c <| by
      rwa [← List.count_pos_iff, ← count_labels_returned hi, List.count_pos_iff]
    messages := fun o c chain message hmem => by
      rcases List.mem_append.mp hmem with hmem | hmem
      · exact hwf.messages o c chain message hmem
      · rw [← List.mem_singleton.mp hmem] at hplace
        cases hplace }

/-- A chain is started. -/
theorem Wf.startChain (hwf : Wf server) (task : ServerTask size)
    (hplace : task.place = some (server.chains, 0))
    (hlabel : ∀ c ∈ task.connecting, c ∉ server.labels ∧ c < server.accepted)
    (hmessages : ∀ o c chain message, task = .runOnMessage o c chain message →
      c < server.accepted ∧
        (server.clients o = some c → (server.objects o).state ≠ .waitingHttpUpgrade)) :
    Wf { server.post task with chains := server.chains + 1 } :=
  { hwf with
    ordered := hwf.ordered.start (fun b hb p hp => hwf.chains b hb p hp) hplace
    chains := fun t ht p hp => by
      rcases List.mem_append.mp ht with ht | ht
      · exact Nat.lt_succ_of_lt (hwf.chains t ht p hp)
      · rw [List.mem_singleton.mp ht, hplace] at hp
        cases hp
        exact Nat.lt_succ_self _
    labels := fun c => by
      have hold := hwf.labels c
      simp only [HttpsWebsocketServer.labels, HttpsWebsocketServer.post, List.filterMap_append,
        List.count_append] at hold ⊢
      cases htask : task.connecting with
      | none =>
        rw [List.filterMap_cons_none htask, List.filterMap_nil, List.count_nil]
        omega
      | some c' =>
        rw [List.filterMap_cons_some htask, List.filterMap_nil, List.count_singleton]
        split
        · next heq =>
          have hfresh := List.count_eq_zero.mpr (beq_iff_eq.mp heq ▸ (hlabel c' htask).1)
          simp only [HttpsWebsocketServer.labels, List.count_append] at hfresh
          omega
        · omega
    labelsBelow := fun c hc => by
      simp only [HttpsWebsocketServer.labels, HttpsWebsocketServer.post, List.filterMap_append,
        List.mem_append] at hc
      rcases hc with ((hc | hc) | hc) | hc
      · exact hwf.labelsBelow c (List.mem_append_left _ (List.mem_append_left _ hc))
      · obtain ⟨t, ht, htc⟩ := List.mem_filterMap.mp hc
        rw [List.mem_singleton.mp ht] at htc
        exact (hlabel c htc).2
      · exact hwf.labelsBelow c (List.mem_append_left _ (List.mem_append_right _ hc))
      · exact hwf.labelsBelow c (List.mem_append_right _ hc)
    messages := fun o c chain message hmem => by
      rcases List.mem_append.mp hmem with hmem | hmem
      · exact hwf.messages o c chain message hmem
      · exact hmessages o c chain message (List.mem_singleton.mp hmem).symm }

/-- An object is given other values. -/
theorem Wf.setConnection (hwf : Wf server) {o : Fin size} {object : HttpWebsocketConnectionIO}
    (hkeeps : Keeps (server.objects o) object) : Wf (server.setConnection o object) := by
  have hobjects := objects_setConnection .refl hkeeps
  exact
    { hwf with
      hasCallbacks := fun o' => (hobjects o').hasCallbacks.trans (hwf.hasCallbacks o')
      descriptor := fun o' c ho' => (hobjects o').descriptor ▸ hwf.descriptor o' c ho'
      distinct := fun o₁ o₂ c₁ c₂ fd h₁ h₂ hfd₁ hfd₂ =>
        hwf.distinct o₁ o₂ c₁ c₂ fd h₁ h₂ ((hobjects o₁).descriptor ▸ hfd₁)
          ((hobjects o₂).descriptor ▸ hfd₂)
      messages := fun o' c chain message hmem => by
        obtain ⟨hbelow, hopen⟩ := hwf.messages o' c chain message hmem
        exact ⟨hbelow, fun ho' => (hobjects o').isOpen (hopen ho')⟩ }

/-- A client has gone. -/
theorem Wf.delFd (hwf : Wf server) (o : Fin size) : Wf (server.delFd o) := by
  unfold HttpsWebsocketServer.delFd
  split
  · next c fd hc hfd =>
    have hother : ∀ {o' : Fin size} {c' : ℕ},
        Function.update server.clients o none o' = some c' →
          o' ≠ o ∧ server.clients o' = some c' := by
      intro o' c' ho'
      by_cases heq : o' = o
      · subst heq
        simp at ho'
      · exact ⟨heq, by simpa [heq] using ho'⟩
    have hstart := hwf.startChain (.ioOnDisconnect fd server.chains) rfl
      (fun _ h => by cases h) fun _ _ _ _ h => by cases h
    exact
      { hstart with
        hasCallbacks := fun o' => by
          by_cases heq : o' = o
          · subst heq
            simp [setObject, refresh]
          · simpa [setObject, heq] using hwf.hasCallbacks o'
        descriptor := fun o' c' ho' => by
          obtain ⟨hne, ho'⟩ := hother ho'
          simpa [setObject, hne] using hwf.descriptor o' c' ho'
        distinct := fun o₁ o₂ c₁ c₂ fd' h₁ h₂ hfd₁ hfd₂ => by
          obtain ⟨hne₁, h₁⟩ := hother h₁
          obtain ⟨hne₂, h₂⟩ := hother h₂
          simp only [setObject, Function.update_of_ne hne₁] at hfd₁
          simp only [setObject, Function.update_of_ne hne₂] at hfd₂
          exact hwf.distinct o₁ o₂ c₁ c₂ fd' h₁ h₂ hfd₁ hfd₂
        inj := fun o₁ o₂ c' h₁ h₂ => hwf.inj o₁ o₂ c' (hother h₁).2 (hother h₂).2
        free := fun o' ho' => by
          by_cases heq : o' = o
          · subst heq
            simp
          · rcases List.mem_append.mp ho' with ho' | ho'
            · simpa [heq] using hwf.free o' ho'
            · exact absurd (List.mem_singleton.mp ho') heq
        nodup := by
          refine List.nodup_append.mpr ⟨hwf.nodup, List.nodup_singleton o, fun a ha b hb heq => ?_⟩
          rw [List.mem_singleton.mp hb] at heq
          have hnone := hwf.free a ha
          rw [heq, hc] at hnone
          cases hnone
        latest := fun o' c' ho' => hwf.latest o' c' (hother ho').2
        messages := fun o' c' chain message hmem => by
          obtain ⟨hbelow, hopen⟩ := hstart.messages o' c' chain message hmem
          refine ⟨hbelow, fun ho' => ?_⟩
          obtain ⟨hne, ho'⟩ := hother ho'
          simpa [setObject, HttpsWebsocketServer.post, hne] using hopen ho' }
  · exact hwf

/-- A client is accepted. -/
theorem Wf.accept (hwf : Wf server) {fd : ℕ} (hfree : server.Free fd) : Wf (server.accept fd) := by
  unfold HttpsWebsocketServer.accept
  split
  · exact { hwf with }
  · next o available havailable =>
    have ho := hwf.free o (havailable ▸ List.mem_cons_self)
    obtain ⟨hnot, hnodup⟩ := List.nodup_cons.mp (havailable ▸ hwf.nodup)
    have hcases : ∀ {o' : Fin size} {c : ℕ},
        Function.update server.clients o (some server.accepted) o' = some c →
          (o' = o ∧ c = server.accepted) ∨ (o' ≠ o ∧ server.clients o' = some c) := by
      intro o' c ho'
      by_cases heq : o' = o
      · subst heq
        rw [Function.update_self] at ho'
        cases ho'
        exact .inl ⟨rfl, rfl⟩
      · exact .inr ⟨heq, by simpa [heq] using ho'⟩
    have hold : ∀ {o' : Fin size} {c : ℕ}, server.clients o' = some c → c < server.accepted :=
      fun ho' => hwf.below _ _ (hwf.latest _ _ ho')
    have hfresh : ∀ {o' : Fin size} {c : ℕ}, server.clients o' = some c →
        (server.objects o').descriptor ≠ some fd := fun ho' =>
      hfree _ (by rw [ho']; exact Option.some_ne_none _)
    exact
      { hwf with
        hasCallbacks := fun o' => by
          by_cases heq : o' = o
          · subst heq
            simp [setObject, establish]
          · simpa [setObject, heq] using hwf.hasCallbacks o'
        descriptor := fun o' c ho' => by
          rcases hcases ho' with ⟨rfl, rfl⟩ | ⟨hne, ho'⟩
          · simp [setObject, establish]
          · simpa [setObject, hne] using hwf.descriptor o' c ho'
        distinct := fun o₁ o₂ c₁ c₂ fd' h₁ h₂ hfd₁ hfd₂ => by
          rcases hcases h₁ with ⟨rfl, rfl⟩ | ⟨hne₁, h₁⟩ <;>
            rcases hcases h₂ with ⟨heq₂, rfl⟩ | ⟨hne₂, h₂⟩
          · exact heq₂.symm
          · simp only [setObject, Function.update_self, establish] at hfd₁
            simp only [setObject, Function.update_of_ne hne₂] at hfd₂
            exact absurd (hfd₂.trans hfd₁.symm) (hfresh h₂)
          · simp only [setObject, Function.update_of_ne hne₁] at hfd₁
            simp only [setObject, heq₂, Function.update_self, establish] at hfd₂
            exact absurd (hfd₁.trans hfd₂.symm) (hfresh h₁)
          · simp only [setObject, Function.update_of_ne hne₁] at hfd₁
            simp only [setObject, Function.update_of_ne hne₂] at hfd₂
            exact hwf.distinct o₁ o₂ c₁ c₂ fd' h₁ h₂ hfd₁ hfd₂
        inj := fun o₁ o₂ c h₁ h₂ => by
          rcases hcases h₁ with ⟨rfl, rfl⟩ | ⟨hne₁, h₁⟩ <;>
            rcases hcases h₂ with ⟨heq₂, hc⟩ | ⟨hne₂, h₂⟩
          · exact heq₂.symm
          · exact absurd (hold h₂) (Nat.lt_irrefl _)
          · exact absurd (hc ▸ hold h₁) (Nat.lt_irrefl _)
          · exact hwf.inj o₁ o₂ c h₁ h₂
        free := fun o' ho' => by
          have hne : o' ≠ o := fun heq => hnot (heq ▸ ho')
          simpa [hne] using hwf.free o' (havailable ▸ List.mem_cons_of_mem _ ho')
        nodup := hnodup
        latest := fun o' c ho' => by
          rcases hcases ho' with ⟨rfl, rfl⟩ | ⟨hne, ho'⟩
          · simp
          · simpa [hne] using hwf.latest o' c ho'
        below := fun o' c ho' => by
          by_cases heq : o' = o
          · subst heq
            have hc : server.accepted = c := by simpa using ho'
            exact hc ▸ Nat.lt_succ_self _
          · exact Nat.lt_succ_of_lt (hwf.below o' c (by simpa [heq] using ho'))
        labelsBelow := fun c hc => Nat.lt_succ_of_lt (hwf.labelsBelow c hc)
        messages := fun o' c chain message hmem => by
          obtain ⟨hbelow, hopen⟩ := hwf.messages o' c chain message hmem
          refine ⟨Nat.lt_succ_of_lt hbelow, fun ho' => ?_⟩
          rcases hcases ho' with ⟨rfl, rfl⟩ | ⟨hne, ho'⟩
          · exact absurd hbelow (Nat.lt_irrefl _)
          · simpa [setObject, hne] using hopen ho' }

/-! ## What a handler leaves -/

/-- Messages, one after the other. -/
theorem foldl_postEffect {P : HttpsWebsocketServer size → Prop} {o : Fin size} {conn : ℕ}
    {effects : List ConnectionEffect} (hmessages : OnlyMessages effects)
    (hmessage : ∀ s message, P s → P (postEffect s o conn (.runOnMessage message)))
    (h : P server) : P (effects.foldl (postEffect · o conn) server) := by
  induction effects generalizing server with
  | nil => exact h
  | cons e effects ih =>
    have hrest : OnlyMessages effects := fun hmem => hmessages (.tail e hmem)
    cases e with
    | sends bytes => exact ih hrest h
    | runOnConnect => exact absurd List.mem_cons_self hmessages
    | runOnMessage message => exact ih hrest (hmessage server message h)

theorem foldl_sends {o : Fin size} {conn : ℕ} {effects : List ConnectionEffect}
    (hsilent : ∀ e ∈ effects, ∃ bytes, e = .sends bytes) :
    effects.foldl (postEffect · o conn) server = server := by
  induction effects with
  | nil => rfl
  | cons e effects ih =>
    obtain ⟨⟨bytes, rfl⟩, hrest⟩ := List.forall_mem_cons.mp hsilent
    exact ih hrest

/-- **The rule for a read**: what the object becomes, the start of `on_connect`, messages, and
`del_fd`. -/
theorem after_induction {P Q : HttpsWebsocketServer size → Prop} {o : Fin size} {conn : ℕ}
    {handled : Handled} (hreads : Reads (server.objects o) handled)
    (hset : ((server.objects o).state = .waitingHttpUpgrade →
      handled.conn.state = .waitingHttpUpgrade) → P (server.setConnection o handled.conn))
    (hopen : (server.objects o).state = .waitingHttpUpgrade →
      handled.conn.state ≠ .waitingHttpUpgrade →
      P ((server.setConnection o handled.conn).postEffect o conn .runOnConnect))
    (hmessage : ∀ s message, handled.conn.state ≠ .waitingHttpUpgrade → P s →
      P (postEffect s o conn (.runOnMessage message)))
    (hstay : ∀ s, P s → Q s) (hdelFd : ∀ s, P s → Q (s.delFd o)) :
    Q (server.after o conn (some handled)) := by
  have hend : ∀ s, P s → Q (if handled.code = 0 then s else s.delFd o) := by
    intro s hs
    split
    · exact hstay s hs
    · exact hdelFd s hs
  refine hend _ ?_
  cases hreads with
  | waits hwait hstate hkeeps hsilent hcode =>
    rw [foldl_sends hsilent]
    exact hset fun _ => hstate
  | opens bytes effects hwait hstate hkeeps heffects hmessages =>
    rw [heffects, List.foldl_cons, List.foldl_cons]
    exact foldl_postEffect hmessages (fun s message => hmessage s message hstate)
      (hopen hwait hstate)
  | goesOn hnot hkeeps hmessages =>
    exact foldl_postEffect hmessages (fun s message => hmessage s message (hkeeps.isOpen hnot))
      (hset fun hwait => absurd hwait hnot)

end HttpsWebsocketServer

end TradingEngine
