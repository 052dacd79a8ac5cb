import Mathlib.Data.Fintype.Basic
import TradingEngine.Http.ResponseWriting
import TradingEngine.Http.ServerRequest
import TradingEngine.Machinery.Run

/-!
# Http/ServerPool — the connections of the REST server, drawn from a pool

A task that answers a request holds the pooled object and not its connection: when it goes on, it
writes to the descriptor the object has by then.  `responses_iff` says that every response reaches
the client that asked for it exactly as long as no object is handed to the next client while it
still has a response to write.
-/

namespace TradingEngine

/-! ## The server -/

/-- What `accept` and the calls behind it come to.  `attach_fd` is called for TLS only. -/
inductive GenerateFd
  | acceptFails
  | fcntlFails (fd : ℕ) (clientIp : List UInt8)
  | attachFails (fd : ℕ) (clientIp : List UInt8)
  | done (fd : ℕ) (clientIp : List UInt8)

/-- A descriptor that the process has open is not given out. -/
def GenerateFd.Possible (sockets : ℕ → Option ℕ) : GenerateFd → Prop
  | .acceptFails => True
  | .fcntlFails fd _ => sockets fd = none
  | .attachFails fd _ => sockets fd = none
  | .done fd _ => sockets fd = none

instance (sockets : ℕ → Option ℕ) : ∀ result : GenerateFd, Decidable (result.Possible sockets)
  | .acceptFails => inferInstanceAs (Decidable True)
  | .fcntlFails fd _ => inferInstanceAs (Decidable (sockets fd = none))
  | .attachFails fd _ => inferInstanceAs (Decidable (sockets fd = none))
  | .done fd _ => inferInstanceAs (Decidable (sockets fd = none))

/-- An object of the pool; its descriptor is `none` for -1. -/
structure PooledConnection where
  fd : Option ℕ
  handler : HttpSocketConnection

/-- `refresh`. -/
def PooledConnection.refreshed : PooledConnection := ⟨none, ⟨[], []⟩⟩

/-- A task of an object: `execute_request`, or `send_404_response`, which has no request.  `asked`
is the connection on which the request came. -/
structure ResponseTask (size : ℕ) where
  object : Fin size
  request : Option HttpRequest
  asked : ℕ

/-- The text a task writes: the response of the handler, or the 404. -/
def ResponseTask.bytes {size : ℕ} {doubles : DoubleText} (task : ResponseTask size)
    (text : ResponseText doubles) : List UInt8 :=
  match task.request with
  | some _ => text.bytes
  | none => (ServedConnection.notFoundText doubles).bytes

/-- The server: the objects, the ring of the free ones, the connection behind each open descriptor,
the number of connections so far, the tasks that have begun, and whether the loop has been left. -/
structure HttpServer (size : ℕ) where
  objects : Fin size → PooledConnection
  available : List (Fin size)
  sockets : ℕ → Option ℕ
  accepted : ℕ
  tasks : List (ResponseTask size)
  stopped : Bool

/-- What the clients and the pool see. -/
inductive ServerOutput (size : ℕ)
  | acquires (o : Fin size)
  | writes (asked conn : ℕ) (bytes : List UInt8)
  | closes (asked : Option ℕ) (conn : ℕ)
  | releases (o : Fin size)

/-- What happens: a connection request; an event of the descriptor of an object, which may be late;
a task that has its response and goes on. -/
inductive ServerEvent (doubles : DoubleText) (size : ℕ)
  | accept (result : GenerateFd)
  | hangUp (o : Fin size)
  | read (o : Fin size) (fuel : ℕ) (buffer : Option (List UInt8))
  | goOn (i : ℕ) (text : ResponseText doubles) (outcome : SocketOutcome)

namespace HttpServer

variable {size : ℕ} {doubles : DoubleText} (transport : Transport) (server : HttpServer size)

/-- A server that has just started. -/
def start (size : ℕ) : HttpServer size where
  objects _ := .refreshed
  available := List.finRange size
  sockets _ := none
  accepted := 0
  tasks := []
  stopped := false

/-- The connection an object has. -/
def connection (o : Fin size) : Option ℕ := (server.objects o).fd.bind server.sockets

/-- An object is given other values. -/
def setObject (o : Fin size) (object : PooledConnection) : HttpServer size :=
  { server with objects := Function.update server.objects o object }

@[simp] theorem objects_setObject_self {server : HttpServer size} (o : Fin size)
    (object : PooledConnection) : (server.setObject o object).objects o = object :=
  Function.update_self _ _ _

@[simp] theorem objects_setObject_of_ne {server : HttpServer size} {o o' : Fin size} (h : o' ≠ o)
    (object : PooledConnection) : (server.setObject o object).objects o' = server.objects o' :=
  Function.update_of_ne h _ _

/-- `del_fd`: the descriptor is closed, and the object goes back to the pool.  `asked` is there when
the response of a task could not be written. -/
def delFd (asked : Option ℕ) (o : Fin size) : HttpServer size × List (ServerOutput size) :=
  match (server.objects o).fd with
  | none => (server, [])
  | some fd =>
    ({ server.setObject o .refreshed with
        sockets := Function.update server.sockets fd none
        available := server.available ++ [o] },
      (server.sockets fd).toList.map (.closes asked) ++ [.releases o])

/-- The object has a descriptor, and with it the next connection. -/
def connect (o : Fin size) (fd : ℕ) (clientIp : List UInt8) : HttpServer size :=
  { server.setObject o ⟨some fd, ⟨(server.objects o).handler.saveBuffer, clientIp⟩⟩ with
    sockets := Function.update server.sockets fd (some server.accepted)
    accepted := server.accepted + 1 }

/-- `HttpServerSocket::handle_read`.  An empty pool throws, and the loop is left. -/
def handleAccept (result : GenerateFd) : HttpServer size × List (ServerOutput size) :=
  match server.available with
  | [] => ({ server with stopped := true }, [])
  | o :: available =>
    let acquired := { server with available := available }
    match result with
    | .acceptFails => (acquired, [.acquires o])
    -- the object is neither watched nor released
    | .fcntlFails fd clientIp => (acquired.connect o fd clientIp, [.acquires o])
    | .attachFails fd clientIp =>
      (((acquired.connect o fd clientIp).delFd none o).1,
        .acquires o :: ((acquired.connect o fd clientIp).delFd none o).2)
    | .done fd clientIp => (acquired.connect o fd clientIp, [.acquires o])

/-- The tasks that a call of the read handler starts. -/
def tasksOf (o : Fin size) (asked : ℕ) : ReadOutcome → List (ResponseTask size)
  | .waits => []
  | .sends404 => [⟨o, none, asked⟩]
  | .executes request => [⟨o, some request, asked⟩]

variable (doubles) in
/-- `HttpSocketConnection::handle_read`, and `del_fd` if it returns -1. -/
def handleRead (o : Fin size) (fuel : ℕ) (buffer : Option (List UInt8)) :
    HttpServer size × List (ServerOutput size) :=
  match server.connection o, buffer with
  | some conn, some bytes =>
    match (server.objects o).handler.handleRead doubles fuel bytes with
    | .running => ({ server with stopped := true }, [])
    | .throws => ({ server with stopped := true }, [])
    | .ok (outcome, handler) =>
      ({ server.setObject o ⟨(server.objects o).fd, handler⟩ with
          tasks := server.tasks ++ tasksOf o conn outcome }, [])
  | _, _ =>
    (server.setObject o ⟨(server.objects o).fd, ⟨[], (server.objects o).handler.clientIp⟩⟩).delFd
      none o

/-- What `send_404_response` does last. -/
def cleanSaveBuffer (task : ResponseTask size) : HttpServer size :=
  match task.request with
  | some _ => server
  | none =>
    server.setObject task.object
      ⟨(server.objects task.object).fd, ⟨[], (server.objects task.object).handler.clientIp⟩⟩

/-- A task goes on: one write, to the descriptor the object has now; -1 leads to `del_fd`. -/
def answer (task : ResponseTask size) (text : ResponseText doubles) (outcome : SocketOutcome) :
    HttpServer size × List (ServerOutput size) :=
  match server.connection task.object with
  | none => server.delFd (some task.asked) task.object
  | some conn =>
    if ServedConnection.writeResult transport (task.bytes text) outcome = -1 then
      server.delFd (some task.asked) task.object
    else
      (server, [.writes task.asked conn ((task.bytes text).take
        (ServedConnection.writeResult transport (task.bytes text) outcome).toNat)])

/-- The end of the `i`-th task. -/
def goOn (i : ℕ) (text : ResponseText doubles) (outcome : SocketOutcome) :
    HttpServer size × List (ServerOutput size) :=
  match server.tasks[i]? with
  | none => (server, [])
  | some task =>
    let answered :=
      { server with tasks := server.tasks.eraseIdx i }.answer transport task text outcome
    (answered.1.cleanSaveBuffer task, answered.2)

/-- **A step.**  Nothing happens behind the end of the loop. -/
def step (event : ServerEvent doubles size) : HttpServer size × List (ServerOutput size) :=
  if server.stopped then (server, [])
  else
    match event with
    | .accept result =>
      if result.Possible server.sockets then server.handleAccept result else (server, [])
    | .hangUp o => server.delFd none o
    | .read o fuel buffer => server.handleRead doubles o fuel buffer
    | .goOn i text outcome => server.goOn transport i text outcome

/-! ## The monitor -/

/-- The objects that are in use, after an output. -/
def see (held : Finset (Fin size)) : ServerOutput size → Finset (Fin size)
  | .acquires o => insert o held
  | .releases o => held.erase o
  | _ => held

/-- **What is claimed of an output**: an object is acquired when it is free and released when it is
in use, and a task writes to the connection that asked and closes no other. -/
def OutputOk (held : Finset (Fin size)) : ServerOutput size → Prop
  | .acquires o => o ∉ held
  | .writes asked conn bytes => bytes ≠ [] → conn = asked
  | .closes asked conn => ∀ c ∈ asked, conn = c
  | .releases o => o ∈ held

instance (held : Finset (Fin size)) : ∀ output, Decidable (OutputOk held output)
  | .acquires o => inferInstanceAs (Decidable (o ∉ held))
  | .writes asked conn bytes => inferInstanceAs (Decidable (bytes ≠ [] → conn = asked))
  | .closes asked conn => inferInstanceAs (Decidable (∀ c ∈ asked, conn = c))
  | .releases o => inferInstanceAs (Decidable (o ∈ held))

/-- **The condition.**  When a task goes on, its object has the connection that asked or none, or
the socket takes nothing. -/
def KeepsClient : ServerEvent doubles size → Prop
  | .goOn i text outcome =>
    server.stopped = false → ∀ task ∈ server.tasks[i]?, ∀ conn ∈ server.connection task.object,
      conn = task.asked ∨ ServedConnection.writeResult transport (task.bytes text) outcome = 0
  | _ => True

/-! ## The invariant -/

/-- The objects in the pool are there once, are not in use, and have no descriptor. -/
structure Wf (server : HttpServer size) (held : Finset (Fin size)) : Prop where
  nodup : server.available.Nodup
  mem_held : ∀ o, o ∈ held ↔ o ∉ server.available
  fd_none : ∀ o ∈ server.available, (server.objects o).fd = none

variable {server} {transport} {held : Finset (Fin size)}

theorem wf_start (size : ℕ) : (start size).Wf ∅ where
  nodup := List.nodup_finRange size
  mem_held o := iff_of_false (Finset.notMem_empty o) (not_not.mpr (List.mem_finRange o))
  fd_none _ _ := rfl

/-- An object with a descriptor is in use. -/
theorem Wf.notMem_available (h : server.Wf held) {o : Fin size} {fd : ℕ}
    (hfd : (server.objects o).fd = some fd) : o ∉ server.available := fun hmem => by
  rw [h.fd_none o hmem] at hfd
  cases hfd

/-- Another text in a handler leaves the pool alone. -/
theorem Wf.setObject (h : server.Wf held) (o : Fin size) (handler : HttpSocketConnection) :
    (server.setObject o ⟨(server.objects o).fd, handler⟩).Wf held where
  nodup := h.nodup
  mem_held := h.mem_held
  fd_none o' hmem := by
    by_cases heq : o' = o
    · rw [heq, objects_setObject_self]
      exact h.fd_none o (heq ▸ hmem)
    · rw [objects_setObject_of_ne heq]
      exact h.fd_none o' hmem

theorem Wf.withTasks (h : server.Wf held) (tasks : List (ResponseTask size)) :
    Wf { server with tasks := tasks } held := ⟨h.nodup, h.mem_held, h.fd_none⟩

theorem Wf.withStopped (h : server.Wf held) (stopped : Bool) :
    Wf { server with stopped := stopped } held := ⟨h.nodup, h.mem_held, h.fd_none⟩

/-! ## Closing a descriptor -/

variable {asked : Option ℕ} {o : Fin size}

/-- **A failed write closes the connection that asked**, or the object has none. -/
theorem along_delFd (h : server.Wf held) :
    Run.Along see OutputOk held (server.delFd asked o).2 ↔
      ∀ conn ∈ server.connection o, ∀ c ∈ asked, conn = c := by
  rw [delFd, connection]
  cases hfd : (server.objects o).fd with
  | none => simp
  | some fd =>
    have hheld : o ∈ held := (h.mem_held o).mpr (h.notMem_available hfd)
    dsimp only [Option.bind_some]
    cases server.sockets fd with
    | none => exact iff_of_true ⟨hheld, trivial⟩ (by rintro _ ⟨⟩)
    | some conn =>
      refine ⟨fun hok => ?_, fun hconn => ⟨hconn conn rfl, hheld, trivial⟩⟩
      rintro _ ⟨⟩
      exact hok.1

theorem wf_delFd (h : server.Wf held) :
    (server.delFd asked o).1.Wf (Run.exec see held (server.delFd asked o).2) := by
  rw [delFd]
  cases hfd : (server.objects o).fd with
  | none => exact h
  | some fd =>
    have hfree := h.notMem_available hfd
    have hsee : Run.exec see held ((server.sockets fd).toList.map (.closes asked) ++
        [.releases o]) = held.erase o := by
      cases server.sockets fd <;> rfl
    dsimp only
    rw [hsee]
    refine ⟨?_, fun o' => ?_, fun o' hmem => ?_⟩
    · exact h.nodup.append (List.nodup_singleton o) (List.disjoint_singleton.mpr hfree)
    · rw [Finset.mem_erase, h.mem_held, List.mem_append, List.mem_singleton, not_or, and_comm]
    · change ((server.setObject o .refreshed).objects o').fd = none
      by_cases heq : o' = o
      · rw [heq, objects_setObject_self]
        rfl
      · rw [objects_setObject_of_ne heq]
        exact h.fd_none o' ((List.mem_append.mp hmem).resolve_right fun hmem =>
          heq (List.mem_singleton.mp hmem))

/-- Without a task, closing is always right. -/
theorem along_delFd_none (h : server.Wf held) :
    Run.Along see OutputOk held (server.delFd none o).2 :=
  (along_delFd h).mpr fun _ _ _ hnone => by cases hnone

/-! ## A new connection -/

variable {available : List (Fin size)}

theorem Wf.acquired (h : server.Wf held) (havailable : server.available = o :: available) :
    Wf { server with available := available } (insert o held) := by
  have hnodup := h.nodup
  rw [havailable, List.nodup_cons] at hnodup
  refine ⟨hnodup.2, fun o' => ?_, fun o' hmem => h.fd_none o' (havailable ▸ .tail o hmem)⟩
  rw [Finset.mem_insert, h.mem_held, havailable, List.mem_cons]
  by_cases heq : o' = o
  · exact iff_of_true (.inl heq) (heq ▸ hnodup.1)
  · simp only [heq, false_or]

theorem Wf.connect (h : server.Wf held) (hfree : o ∉ server.available) (fd : ℕ)
    (clientIp : List UInt8) : (server.connect o fd clientIp).Wf held where
  nodup := h.nodup
  mem_held := h.mem_held
  fd_none o' hmem := by
    have heq : o' ≠ o := fun heq => hfree (heq ▸ hmem)
    change ((server.setObject o _).objects o').fd = none
    rw [objects_setObject_of_ne heq]
    exact h.fd_none o' hmem

theorem handleAccept_ok (h : server.Wf held) (result : GenerateFd) :
    Run.Along see OutputOk held (server.handleAccept result).2 ∧
      (server.handleAccept result).1.Wf (Run.exec see held (server.handleAccept result).2) := by
  unfold handleAccept
  split
  · exact ⟨trivial, h.withStopped true⟩
  · next o available havailable =>
    have hnodup := h.nodup
    rw [havailable, List.nodup_cons] at hnodup
    have hacquires : OutputOk held (.acquires o) := fun hmem =>
      (h.mem_held o).mp hmem (havailable ▸ List.mem_cons_self)
    have hacquired := h.acquired havailable
    have hconnect := fun fd clientIp => hacquired.connect hnodup.1 fd clientIp
    cases result with
    | acceptFails => exact ⟨⟨hacquires, trivial⟩, hacquired⟩
    | fcntlFails fd clientIp => exact ⟨⟨hacquires, trivial⟩, hconnect fd clientIp⟩
    | attachFails fd clientIp =>
      exact ⟨⟨hacquires, along_delFd_none (hconnect fd clientIp)⟩, wf_delFd (hconnect fd clientIp)⟩
    | done fd clientIp => exact ⟨⟨hacquires, trivial⟩, hconnect fd clientIp⟩

/-! ## Requests and answers -/

theorem handleRead_ok (h : server.Wf held) (o : Fin size) (fuel : ℕ)
    (buffer : Option (List UInt8)) :
    Run.Along see OutputOk held (server.handleRead doubles o fuel buffer).2 ∧
      (server.handleRead doubles o fuel buffer).1.Wf
        (Run.exec see held (server.handleRead doubles o fuel buffer).2) := by
  have hfails := h.setObject o ⟨[], (server.objects o).handler.clientIp⟩
  unfold handleRead
  split
  · split
    · exact ⟨trivial, h.withStopped true⟩
    · exact ⟨trivial, h.withStopped true⟩
    · exact ⟨trivial, (h.setObject o _).withTasks _⟩
  · exact ⟨along_delFd_none hfails, wf_delFd hfails⟩

theorem Wf.cleanSaveBuffer (h : server.Wf held) (task : ResponseTask size) :
    (server.cleanSaveBuffer task).Wf held := by
  rw [HttpServer.cleanSaveBuffer]
  split
  · exact h
  · exact h.setObject task.object _

theorem wf_answer (h : server.Wf held) (task : ResponseTask size) (text : ResponseText doubles)
    (outcome : SocketOutcome) :
    (server.answer transport task text outcome).1.Wf
      (Run.exec see held (server.answer transport task text outcome).2) := by
  rw [answer]
  split
  · exact wf_delFd h
  · split
    · exact wf_delFd h
    · exact h

/-- **An answer is right exactly when the object has the connection that asked or none**, or the
socket takes nothing. -/
theorem along_answer (h : server.Wf held) (task : ResponseTask size) (text : ResponseText doubles)
    (outcome : SocketOutcome) :
    Run.Along see OutputOk held (server.answer transport task text outcome).2 ↔
      ∀ conn ∈ server.connection task.object, conn = task.asked ∨
        ServedConnection.writeResult transport (task.bytes text) outcome = 0 := by
  have hle : ServedConnection.writeResult transport (task.bytes text) outcome ≤
      (task.bytes text).length := ServedConnection.writeResult_le
  have hge : -1 ≤ ServedConnection.writeResult transport (task.bytes text) outcome :=
    ServedConnection.neg_one_le_writeResult
  rw [answer]
  cases hconn : server.connection task.object with
  | none =>
    refine iff_of_true ((along_delFd h).mpr ?_) (by rintro _ ⟨⟩)
    rw [hconn]
    rintro _ ⟨⟩
  | some conn =>
    dsimp only
    split
    · next hfail =>
      rw [along_delFd h, hconn]
      simp [hfail]
    · next hwrites =>
      have hempty : (task.bytes text).take (ServedConnection.writeResult transport
          (task.bytes text) outcome).toNat = [] ↔
          ServedConnection.writeResult transport (task.bytes text) outcome = 0 := by
        rw [← List.length_eq_zero_iff, List.length_take]
        omega
      simp only [Run.along_cons, Run.along_nil, and_true, OutputOk, Option.mem_def,
        Option.some_inj, forall_eq', ne_eq, hempty]
      exact ⟨fun hok => or_iff_not_imp_right.mpr hok, fun hok => or_iff_not_imp_right.mp hok⟩

/-! ## Runs -/

theorem goOn_ok (h : server.Wf held) (i : ℕ) (text : ResponseText doubles)
    (outcome : SocketOutcome) :
    (server.goOn transport i text outcome).1.Wf
        (Run.exec see held (server.goOn transport i text outcome).2) ∧
      (Run.Along see OutputOk held (server.goOn transport i text outcome).2 ↔
        ∀ task ∈ server.tasks[i]?, ∀ conn ∈ server.connection task.object, conn = task.asked ∨
          ServedConnection.writeResult transport (task.bytes text) outcome = 0) := by
  unfold goOn
  cases htask : server.tasks[i]? with
  | none => exact ⟨h, iff_of_true trivial (by rintro _ ⟨⟩)⟩
  | some task =>
    have herased := h.withTasks (server.tasks.eraseIdx i)
    refine ⟨(wf_answer herased task text outcome).cleanSaveBuffer task, ?_⟩
    rw [along_answer herased]
    exact ⟨fun hok => by rintro _ ⟨⟩; exact hok, fun hok => hok task rfl⟩

/-- **The step lemma.** -/
theorem wf_step (h : server.Wf held) (event : ServerEvent doubles size) :
    (server.step transport event).1.Wf (Run.exec see held (server.step transport event).2) := by
  unfold step
  split
  · exact h
  · cases event with
    | accept result =>
      dsimp only
      split
      · exact (handleAccept_ok h result).2
      · exact h
    | hangUp o => exact wf_delFd h
    | read o fuel buffer => exact (handleRead_ok h o fuel buffer).2
    | goOn i text outcome => exact (goOn_ok h i text outcome).1

/-- **Exactness of one step.** -/
theorem along_step_iff (h : server.Wf held) (event : ServerEvent doubles size) :
    Run.Along see OutputOk held (server.step transport event).2 ↔
      server.KeepsClient transport event := by
  unfold step
  cases hstopped : server.stopped with
  | true =>
    refine iff_of_true trivial ?_
    cases event <;> simp [KeepsClient, hstopped]
  | false =>
    rw [if_neg Bool.false_ne_true]
    cases event with
    | accept result =>
      refine iff_of_true ?_ trivial
      dsimp only
      split
      · exact (handleAccept_ok h result).1
      · trivial
    | hangUp o => exact iff_of_true (along_delFd_none h) trivial
    | read o fuel buffer => exact iff_of_true (handleRead_ok h o fuel buffer).1 trivial
    | goOn i text outcome =>
      refine (goOn_ok h i text outcome).2.trans ?_
      simp only [KeepsClient, hstopped, forall_const]

/-- **Every response reaches the client that asked for it exactly when** each task that goes on
finds its object with the connection that asked, with none, or with a socket that takes nothing. -/
theorem responses_iff (doubles : DoubleText) (transport : Transport) (size : ℕ)
    (events : List (ServerEvent doubles size)) :
    Run.Along see OutputOk ∅ (Run.trace (step transport) (start size) events) ↔
      Run.Along (Run.next (step transport)) (KeepsClient transport) (start size) events := by
  have hwatch : Run.Along (Run.watch (step transport) see)
      (fun p event => p.1.KeepsClient transport event) (start size, ∅) events ↔
      Run.Along (Run.next (step transport)) (KeepsClient transport) (start size) events :=
    Run.along_watch (start size) ∅ events
  rw [Run.along_trace, ← hwatch]
  exact Run.along_iff_of_invariant (I := fun p => p.1.Wf p.2) (L := fun _ _ => True)
    (fun p event h _ _ => wf_step h event) (fun p event h _ => along_step_iff h event)
    (wf_start size) (Run.along_of_forall (fun _ _ => trivial) _ events)

/-- The pool has 100 objects.  A client asks and hangs up; 99 others come and go; the next one gets
the object of the first, and then the first one's response is ready. -/
def recycledRun (doubles : DoubleText) : List (ServerEvent doubles 100) :=
  [.accept (.done 5 []), .read 0 0 (some (Ascii.text "GET / HTTP/1.1" ++ headEnd)), .hangUp 0] ++
    ((List.finRange 100).tail.flatMap fun o => [.accept (.done 5 []), .hangUp o]) ++
    [.accept (.done 5 []), .goOn 0 (ServedConnection.notFoundText doubles) (.takes 9)]

/-- The response of the first client is written to another one. -/
theorem recycledRun_not_ok :
    ¬ ∀ (doubles : DoubleText) (transport : Transport) (size : ℕ)
      (events : List (ServerEvent doubles size)),
      Run.Along see OutputOk ∅ (Run.trace (step transport) (start size) events) := by
  intro h
  exact absurd (h ⟨fun _ => [], fun _ => none⟩ .http 100 (recycledRun _)) (by decide +kernel)

end HttpServer

end TradingEngine
