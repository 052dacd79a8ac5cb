import TradingEngine.WebSocketServer.Callbacks

/-!
# WebSocketServer/OnConnect — how far the `on_connect` of a client is

`Phase` follows the `on_connect` of a client: it has not been started; it is under way, and of all
callbacks that write the entries of the descriptor it was started last; or it is over, and the
entries are the client's.
-/

namespace TradingEngine

open HttpWebsocketConnectionIO ServerTask WebSocket

namespace HttpsWebsocketServer

variable {size : ℕ} {setup : WebsocketSetup} {server server' : HttpsWebsocketServer size}
  {task : ServerTask size}

/-! ## The `on_connect` of a client -/

/-- The callback that has come to a stage. -/
def onConnectTask (request : WebsocketUpgradeRequest) (o : Fin size) (c fd k : ℕ) :
    ℕ → ServerTask size
  | 0 => .runOnConnect o c k
  | 1 => .ioOnConnect o fd c k
  | _ => .onConnect o fd c k request.path request.accessToken

theorem place_onConnectTask (request : WebsocketUpgradeRequest) (o : Fin size) (c fd k : ℕ) {s : ℕ}
    (hs : s ≤ 2) : (onConnectTask request o c fd k s).place = some (k, s) := by
  match s, hs with
  | 0, _ => rfl
  | 1, _ => rfl
  | 2, _ => rfl

theorem connecting_onConnectTask (request : WebsocketUpgradeRequest) (o : Fin size) (c fd k s : ℕ) :
    (onConnectTask request o c fd k s).connecting = some c := by
  match s with
  | 0 => rfl
  | 1 => rfl
  | _ + 2 => rfl

/-- It has not been started.  `Taken` allows a close frame meant for another client. -/
structure Idle (Taken : Prop) (server : HttpsWebsocketServer size) (o : Fin size) (c : ℕ) :
    Prop where
  label : c ∉ server.labels
  state : Taken ∨ (server.objects o).state = .waitingHttpUpgrade

/-- It is under way, and was started after whatever else touches the descriptor. -/
structure Connecting (server : HttpsWebsocketServer size) (o : Fin size) (c fd k s : ℕ) : Prop where
  stage : s ≤ 2
  isOpen : (server.objects o).state ≠ .waitingHttpUpgrade
  own : onConnectTask (server.objects o).upgradeRequest o c fd k s ∈ server.queue
  last : ∀ t ∈ server.queue, Touches o fd t → ∀ p ∈ t.place, p.1 ≤ k
  messages : ∀ chain message, .runOnMessage o c chain message ∈ server.queue → k < chain
  connection : s = 2 → server.connectionsByFd fd = some o

/-- It has written the entries.  `Late` allows the end of an `on_disconnect` behind it. -/
structure Done (Late : Prop) (setup : WebsocketSetup) (server : HttpsWebsocketServer size)
    (o : Fin size) (fd : ℕ) : Prop where
  isOpen : (server.objects o).state ≠ .waitingHttpUpgrade
  quiet : ∀ t ∈ server.queue, ¬ Touches o fd t
  connection : server.connectionsByFd fd = some o
  route : server.routesByFd fd = setup.routes (.ofPath (server.objects o).upgradeRequest.path) ∨
    Late ∧ server.routesByFd fd = none
  clears : Late ∨ ∀ t ∈ server.queue ++ server.waiting, ¬ Clears fd t

/-- How far a client is. -/
def Phase (Late Taken : Prop) (setup : WebsocketSetup) (server : HttpsWebsocketServer size)
    (o : Fin size) (c fd : ℕ) : Prop :=
  Idle Taken server o c ∨ (∃ k s, Connecting server o c fd k s) ∨ Done Late setup server o fd

/-- **Every client is in one of the phases.** -/
def Phases (Late Taken : Prop) (setup : WebsocketSetup) (server : HttpsWebsocketServer size) :
    Prop :=
  ∀ o c fd, server.clients o = some c → (server.objects o).descriptor = some fd →
    Phase Late Taken setup server o c fd

variable {Late Taken : Prop} {o : Fin size} {c fd k s : ℕ} {rest : List (ServerTask size)}

/-! ### A coroutine -/

theorem Idle.run (h : Idle Taken server o c) (hqueue : server.queue = task :: rest)
    (hran : Ran setup (server.popped rest) task server')
    (htaken : Taken ∨ ∀ conn reason, task = .runOnConnectReturns o conn (some reason) → c = conn) :
    Idle Taken server' o c := by
  refine ⟨fun hc => h.label (hran.labels_subset hqueue hc), ?_⟩
  rcases htaken with htaken | htaken
  · exact .inl htaken
  · rcases h.state with hstate | hstate
    · exact .inl hstate
    · rcases hran.state o with hsame | ⟨conn, reason, htask⟩
      · exact .inr (hsame.trans hstate)
      · have hc : c ∈ server.labels := by
          rw [HttpsWebsocketServer.labels, hqueue, htask, htaken conn reason htask]
          simp [ServerTask.connecting]
        exact absurd hc h.label

/-- Another coroutine leaves a client where it is. -/
theorem Connecting.run (hwf : Wf server) (h : Connecting server o c fd k s)
    (ho : server.clients o = some c) (hfd : (server.objects o).descriptor = some fd)
    (hqueue : server.queue = task :: rest) (hran : Ran setup (server.popped rest) task server')
    (hother : onConnectTask (server.objects o).upgradeRequest o c fd k s ∈ rest) :
    Connecting server' o c fd k s where
  stage := h.stage
  isOpen := (hran.objects o).isOpen h.isOpen
  own := by
    rw [(hran.objects o).request h.isOpen]
    exact hran.subset hother
  last t ht htouches p hp := by
    rcases hran.mem_queue ht with ht | hnext
    · exact h.last t (hqueue ▸ List.mem_cons_of_mem _ ht) htouches p hp
    · have htask := hnext.touches (fun o' => hwf.eq_of_descriptor ho hfd) htouches
      rcases hnext.place_eq with hplace | ⟨n, j, hplace, hnextPlace⟩
      · rw [hplace] at hp
        cases hp
      · rw [hnextPlace] at hp
        cases hp
        exact h.last task (hqueue ▸ List.mem_cons_self) htask (n, j) hplace
  messages chain message hmem := by
    rcases hran.mem_queue hmem with hmem | hnext
    · exact h.messages chain message (hqueue ▸ List.mem_cons_of_mem _ hmem)
    · exact absurd rfl (hnext.ne_runOnMessage o c chain message)
  connection hs := by
    -- an earlier chain in front of this one is at the same stage at least
    have hearlier : ∀ j < 2, Touches o fd task → ∀ n, task.place ≠ some (n, j) := by
      intro j hj htouches n hplace
      have hordered := hqueue ▸ hwf.ordered
      have hplaceOwn := place_onConnectTask (server.objects o).upgradeRequest o c fd k h.stage
      have hle := h.last task (hqueue ▸ List.mem_cons_self) htouches (n, j) hplace
      have hne := hordered.ne_front hother hplace hplaceOwn
      have hstage := hordered.stage_le (List.mem_cons_of_mem _ hother) List.mem_cons_self hplaceOwn
        hplace (by dsimp only at hle hne ⊢; omega)
      dsimp only at hstage
      omega
    rcases hran.connections with
      hsame | ⟨o', fd', conn, chain, rfl, hupdate⟩ | ⟨fd', chain, rfl, hupdate⟩
    · rw [hsame]
      exact h.connection hs
    · have hne : fd ≠ fd' := fun heq => hearlier 1 (by omega) heq.symm chain rfl
      rw [hupdate, Function.update_of_ne hne]
      exact h.connection hs
    · have hne : fd ≠ fd' := fun heq => hearlier 0 (by omega) heq.symm chain rfl
      rw [hupdate, Function.update_of_ne hne]
      exact h.connection hs

theorem Done.run (hwf : Wf server) (h : Done Late setup server o fd)
    (ho : server.clients o = some c) (hfd : (server.objects o).descriptor = some fd)
    (hqueue : server.queue = task :: rest) (hran : Ran setup (server.popped rest) task server') :
    Done Late setup server' o fd := by
  have hfront : ¬ Touches o fd task := h.quiet task (hqueue ▸ List.mem_cons_self)
  exact
    { isOpen := (hran.objects o).isOpen h.isOpen
      quiet := fun t ht htouches => by
        rcases hran.mem_queue ht with ht | hnext
        · exact h.quiet t (hqueue ▸ List.mem_cons_of_mem _ ht) htouches
        · exact hfront (hnext.touches (fun o' => hwf.eq_of_descriptor ho hfd) htouches)
      connection := by
        rcases hran.connections with hsame | ⟨o', fd', conn, chain, rfl, hupdate⟩ |
          ⟨fd', chain, rfl, hupdate⟩
        · exact hsame ▸ h.connection
        · rw [hupdate, Function.update_of_ne fun heq => hfront heq.symm]
          exact h.connection
        · rw [hupdate, Function.update_of_ne fun heq => hfront heq.symm]
          exact h.connection
      route := by
        rw [(hran.objects o).request h.isOpen]
        rcases hran.routes with hsame | ⟨o', fd', conn, chain, path, token, rfl, hupdate⟩ |
          ⟨fd', rfl, hupdate⟩
        · exact hsame ▸ h.route
        · rw [hupdate, Function.update_of_ne fun heq => hfront heq.symm]
          exact h.route
        · by_cases heq : fd = fd'
          · subst heq
            rcases h.clears with hlate | hclears
            · exact .inr ⟨hlate, by rw [hupdate, Function.update_self]⟩
            · exact absurd (.inr rfl)
                (hclears _ (List.mem_append_left _ (hqueue ▸ List.mem_cons_self)))
          · rw [hupdate, Function.update_of_ne heq]
            exact h.route
      clears := by
        refine h.clears.imp_right fun hclears t ht htc => ?_
        rcases List.mem_append.mp ht with ht | ht
        · rcases hran.mem_queue ht with ht | hnext
          · exact hclears t (List.mem_append_left _ (hqueue ▸ List.mem_cons_of_mem _ ht)) htc
          · obtain ⟨chain, rfl⟩ := hnext.clears htc
            exact hfront rfl
        · rcases hran.waiting with hsame | ⟨o', conn, rfl, hupdate⟩ | ⟨fd', rfl, hupdate⟩
          · exact hclears t (List.mem_append_right _ (hsame ▸ ht)) htc
          · rw [hupdate, List.mem_append, List.mem_singleton] at ht
            rcases ht with ht | rfl
            · exact hclears t (List.mem_append_right _ ht) htc
            · rcases htc with htc | htc <;> cases htc
          · rw [hupdate, List.mem_append, List.mem_singleton] at ht
            rcases ht with ht | rfl
            · exact hclears t (List.mem_append_right _ ht) htc
            · rcases htc with htc | htc
              · cases htc
              · cases htc
                exact hclears _ (List.mem_append_left _ (hqueue ▸ List.mem_cons_self)) (.inl rfl) }

/-- What else touches the descriptor was started earlier, and is further on. -/
theorem Connecting.behind (hwf : Wf server) (h : Connecting server o c fd k s)
    (hqueue : server.queue = onConnectTask (server.objects o).upgradeRequest o c fd k s :: rest)
    {t : ServerTask size} (ht : t ∈ rest) (htouches : Touches o fd t) :
    ∀ p ∈ t.place, p.1 < k ∧ s < p.2 := by
  intro p hp
  have hordered := hqueue ▸ hwf.ordered
  have hplace := place_onConnectTask (server.objects o).upgradeRequest o c fd k h.stage
  have hle := h.last t (hqueue ▸ List.mem_cons_of_mem _ ht) htouches p hp
  have hlt : p.1 < k := lt_of_le_of_ne hle (hordered.ne_front ht hplace hp)
  exact ⟨hlt, hordered.stage_lt ht hplace hp hlt⟩

/-- The next callback has been posted. -/
theorem Connecting.advance (hwf : Wf server) (h : Connecting server o c fd k s) (hs : s < 2)
    (hqueue : server.queue = onConnectTask (server.objects o).upgradeRequest o c fd k s :: rest)
    (hobjects : server'.objects = server.objects)
    (hposted : server'.queue =
      rest ++ [onConnectTask (server.objects o).upgradeRequest o c fd k (s + 1)])
    (hconnection : s = 1 → server'.connectionsByFd fd = some o) :
    Connecting server' o c fd k (s + 1) where
  stage := hs
  isOpen := hobjects ▸ h.isOpen
  own := by
    rw [hposted, hobjects]
    exact List.mem_append_right _ List.mem_cons_self
  last t ht htouches p hp := by
    rw [hposted, List.mem_append, List.mem_singleton] at ht
    rcases ht with ht | rfl
    · exact (h.behind hwf hqueue ht htouches p hp).1.le
    · rw [place_onConnectTask _ _ _ _ _ hs] at hp
      cases hp
      exact le_rfl
  messages chain message hmem := by
    rw [hposted, List.mem_append, List.mem_singleton] at hmem
    rcases hmem with hmem | hmem
    · exact h.messages chain message (hqueue ▸ List.mem_cons_of_mem _ hmem)
    · have hlabel := connecting_onConnectTask (server.objects o).upgradeRequest o c fd k (s + 1)
      rw [← hmem] at hlabel
      cases hlabel
  connection hs' := hconnection (by omega)

/-- **The `on_connect` of a client goes on.** -/
theorem Connecting.phase_run (hwf : Wf server) (h : Connecting server o c fd k s)
    (ho : server.clients o = some c) (hfd : (server.objects o).descriptor = some fd)
    (hqueue : server.queue = onConnectTask (server.objects o).upgradeRequest o c fd k s :: rest)
    (hlate : s = 2 → Late ∨ ∀ t ∈ rest ++ server.waiting, ¬ Clears fd t) :
    Phase Late Taken setup
      ((server.popped rest).run setup
        (onConnectTask (server.objects o).upgradeRequest o c fd k s)).1 o c fd := by
  match s, h.stage with
  | 0, _ =>
    refine .inr (.inl ⟨k, 1, h.advance hwf (by omega) hqueue ?_ ?_ fun h => by omega⟩)
    all_goals
      have hcallbacks : ((server.popped rest).objects o).hasCallbacks = true := by
        rw [popped, hwf.hasCallbacks, ho, Option.isSome_some]
      have hdescriptor : ((server.popped rest).objects o).descriptor = some fd := hfd
      simp only [onConnectTask, HttpsWebsocketServer.run, HttpsWebsocketServer.runOnConnect,
        hcallbacks, hdescriptor]
      rfl
  | 1, _ =>
    exact .inr (.inl ⟨k, 2, h.advance hwf (by omega) hqueue rfl rfl fun _ =>
      Function.update_self (β := fun _ => Option (Fin size)) fd (some o) server.connectionsByFd⟩)
  | 2, _ =>
    refine .inr (.inr ⟨h.isOpen, fun t ht htouches => ?_, h.connection rfl,
      .inl (Function.update_self fd _ _), (hlate rfl).imp_right fun hclears t ht => ?_⟩)
    · rcases List.mem_append.mp ht with ht | ht
      · obtain ⟨n, j, hplace, hj⟩ := htouches.place
        have hlt := (h.behind hwf hqueue ht htouches (n, j) hplace).2
        exact absurd hlt (by dsimp only; omega)
      · rw [List.mem_singleton] at ht
        rw [ht] at htouches
        revert htouches
        split <;> exact id
    · rcases List.mem_append.mp ht with ht | ht
      · rcases List.mem_append.mp ht with ht | ht
        · exact hclears t (List.mem_append_left _ ht)
        · rw [List.mem_singleton] at ht
          rw [ht]
          split <;> rintro (h | h) <;> cases h
      · exact hclears t (List.mem_append_right _ ht)

/-- **A coroutine keeps the phases**: late ends of an `on_disconnect` and close frames for another
client apart. -/
theorem Phases.run (hwf : Wf server) (h : Phases Late Taken setup server)
    (hqueue : server.queue = task :: rest)
    (hlate : Late ∨ ∀ o fd conn chain path token, task = .onConnect o fd conn chain path token →
      ∀ t ∈ rest ++ server.waiting, ¬ Clears fd t)
    (htaken : Taken ∨ ∀ o conn reason, task = .runOnConnectReturns o conn (some reason) →
      ∀ c, server.clients o = some c → c = conn) :
    Phases Late Taken setup ((server.popped rest).run setup task).1 := by
  intro o c fd ho hfd
  have hran := ran_run setup (server.popped rest) task
  rw [hran.clients] at ho
  rw [(hran.objects o).descriptor] at hfd
  rcases h o c fd ho hfd with hidle | ⟨k, s, hconnecting⟩ | hdone
  · exact .inl (hidle.run hqueue hran (htaken.imp_right fun htaken conn reason htask =>
      htaken o conn reason htask c ho))
  · rcases List.mem_cons.mp (hqueue ▸ hconnecting.own) with hown | hown
    · subst hown
      refine hconnecting.phase_run hwf ho hfd hqueue fun hs => ?_
      subst hs
      exact hlate.imp_right fun hlate => hlate o fd c k _ _ rfl
    · exact .inr (.inl ⟨k, s, hconnecting.run hwf ho hfd hqueue hran hown⟩)
  · exact .inr (.inr (hdone.run hwf ho hfd hqueue hran))

/-! ### The other operations -/

/-- An operation that leaves a client where it is. -/
structure Frame (server server' : HttpsWebsocketServer size) (o : Fin size) (c fd : ℕ) : Prop where
  objects : Keeps (server.objects o) (server'.objects o)
  state : (server.objects o).state = .waitingHttpUpgrade →
    (server'.objects o).state = .waitingHttpUpgrade
  subset : ∀ t ∈ server.queue, t ∈ server'.queue
  touches : ∀ t ∈ server'.queue, Touches o fd t → t ∈ server.queue
  messages : ∀ chain message, .runOnMessage o c chain message ∈ server'.queue →
    .runOnMessage o c chain message ∈ server.queue ∨ server.chains ≤ chain
  clears : ∀ t ∈ server'.queue ++ server'.waiting, Clears fd t → t ∈ server.queue ++ server.waiting
  label : c ∈ server'.labels → c ∈ server.labels
  connections : server'.connectionsByFd = server.connectionsByFd
  routes : server'.routesByFd = server.routesByFd

/-- **The frame rule.** -/
theorem Phase.frame (hwf : Wf server) (h : Phase Late Taken setup server o c fd)
    (hframe : Frame server server' o c fd) : Phase Late Taken setup server' o c fd := by
  rcases h with hidle | ⟨k, s, hconnecting⟩ | hdone
  · exact .inl ⟨fun hc => hidle.label (hframe.label hc), hidle.state.imp_right hframe.state⟩
  · refine .inr (.inl ⟨k, s, ?_⟩)
    exact
      { stage := hconnecting.stage
        isOpen := hframe.objects.isOpen hconnecting.isOpen
        own := by
          rw [hframe.objects.request hconnecting.isOpen]
          exact hframe.subset _ hconnecting.own
        last := fun t ht htouches => hconnecting.last t (hframe.touches t ht htouches) htouches
        messages := fun chain message hmem => by
          rcases hframe.messages chain message hmem with hmem | hchain
          · exact hconnecting.messages chain message hmem
          · have hplace := place_onConnectTask (server.objects o).upgradeRequest o c fd k
              hconnecting.stage
            exact (hwf.chains _ hconnecting.own _ hplace).trans_le hchain
        connection := fun hs => hframe.connections ▸ hconnecting.connection hs }
  · refine .inr (.inr ?_)
    exact
      { isOpen := hframe.objects.isOpen hdone.isOpen
        quiet := fun t ht htouches => hdone.quiet t (hframe.touches t ht htouches) htouches
        connection := hframe.connections ▸ hdone.connection
        route := by
          rw [hframe.objects.request hdone.isOpen, hframe.routes]
          exact hdone.route
        clears := hdone.clears.imp_right fun hclears t ht htc =>
          hclears t (hframe.clears t ht htc) htc }

/-- A coroutine that is none of the callbacks of the client. -/
structure Foreign (o : Fin size) (c fd chains : ℕ) (task : ServerTask size) : Prop where
  touches : ¬ Touches o fd task
  messages : ∀ chain message, task = .runOnMessage o c chain message → chains ≤ chain
  clears : ¬ Clears fd task
  label : task.connecting ≠ some c

/-- It is posted, and a client accepted or gone. -/
theorem frame_post (task : ServerTask size) (hobject : server'.objects o = server.objects o)
    (hqueue : server'.queue = server.queue ++ [task]) (hwaiting : server'.waiting = server.waiting)
    (happroved : server'.approved = server.approved)
    (hconnections : server'.connectionsByFd = server.connectionsByFd)
    (hroutes : server'.routesByFd = server.routesByFd) (h : Foreign o c fd server.chains task) :
    Frame server server' o c fd where
  objects := hobject ▸ .refl _
  state := hobject ▸ id
  subset t ht := hqueue ▸ List.mem_append_left _ ht
  touches t ht htouches := by
    rw [hqueue, List.mem_append, List.mem_singleton] at ht
    exact ht.resolve_right fun heq => h.touches (heq ▸ htouches)
  messages chain message hmem := by
    rw [hqueue, List.mem_append, List.mem_singleton] at hmem
    exact hmem.imp_right fun heq => h.messages chain message heq.symm
  clears t ht htc := by
    rw [hqueue, hwaiting, List.mem_append, List.mem_append, List.mem_singleton] at ht
    rw [List.mem_append]
    exact ht.imp_left fun ht => ht.resolve_right fun heq => h.clears (heq ▸ htc)
  label hc := by
    simp only [HttpsWebsocketServer.labels, hqueue, hwaiting, happroved, List.filterMap_append,
      List.mem_append] at hc ⊢
    rcases hc with ((hc | hc) | hc) | hc
    · exact .inl (.inl hc)
    · obtain ⟨t, ht, htc⟩ := List.mem_filterMap.mp hc
      exact absurd (List.mem_singleton.mp ht ▸ htc) h.label
    · exact .inl (.inr hc)
    · exact .inr hc
  connections := hconnections
  routes := hroutes

/-- An object is given other values, if this does not open it. -/
theorem frame_setConnection (c fd : ℕ) {o' : Fin size} {object : HttpWebsocketConnectionIO}
    (hkeeps : Keeps (server.objects o') object)
    (hstate : o = o' → (server.objects o').state = .waitingHttpUpgrade →
      object.state = .waitingHttpUpgrade) :
    Frame server (server.setConnection o' object) o c fd where
  objects := objects_setConnection .refl hkeeps o
  state := by
    by_cases heq : o = o'
    · subst heq
      simpa [setConnection, setObject] using hstate rfl
    · simp [setConnection, setObject, heq]
  subset _ := id
  touches _ ht _ := ht
  messages _ _ := .inl
  clears _ ht _ := ht
  label := id
  connections := rfl
  routes := rfl

/-- A message. -/
theorem Phases.message (hwf : Wf server) (h : Phases Late Taken setup server) (o' : Fin size)
    (conn : ℕ) (message : List UInt8) :
    Phases Late Taken setup (server.postEffect o' conn (.runOnMessage message)) := by
  intro o c fd ho hfd
  refine (h o c fd ho hfd).frame hwf (frame_post (.runOnMessage o' conn server.chains message)
    rfl rfl rfl rfl rfl rfl ⟨id, fun chain message' heq => ?_, ?_, fun h => by cases h⟩)
  · cases heq
    exact le_rfl
  · rintro (h | h) <;> cases h

/-- A client has gone. -/
theorem Phases.delFd (hwf : Wf server) (h : Phases Late Taken setup server) (o' : Fin size) :
    Phases Late Taken setup (server.delFd o') := by
  unfold HttpsWebsocketServer.delFd
  split
  · next c' fd' ho' hfd' =>
    intro o c fd ho hfd
    have hne : o ≠ o' := by
      rintro rfl
      simp at ho
    have ho : server.clients o = some c := by simpa [hne] using ho
    have hfd : (server.objects o).descriptor = some fd := by simpa [setObject, hne] using hfd
    refine (h o c fd ho hfd).frame hwf (frame_post (.ioOnDisconnect fd' server.chains)
      (by simp [setObject, hne]) rfl rfl rfl rfl rfl ⟨fun heq => ?_, fun _ _ heq => ?_, ?_, ?_⟩)
    · exact hne (hwf.distinct o o' c c' fd ho ho' hfd (heq ▸ hfd'))
    · cases heq
    · rintro (h | h) <;> cases h
    · exact fun heq => by cases heq
  · exact h

/-- A client is accepted. -/
theorem Phases.accept (hwf : Wf server) (h : Phases Late Taken setup server) (fd' : ℕ) :
    Phases Late Taken setup (server.accept fd') := by
  unfold HttpsWebsocketServer.accept
  split
  · intro o c fd ho hfd
    refine (h o c fd ho hfd).frame hwf ⟨.refl _, id, fun _ => id, fun _ ht _ => ht, fun _ _ => .inl,
      fun _ ht _ => ht, id, rfl, rfl⟩
  · next o' available havailable =>
    intro o c fd ho hfd
    by_cases heq : o = o'
    · subst heq
      have hc : server.accepted = c := by simpa using ho
      refine .inl ⟨fun hlabel => ?_, .inr ?_⟩
      · exact absurd (hwf.labelsBelow c hlabel) (hc ▸ Nat.lt_irrefl _)
      · simp [setObject, establish, refresh]
    · have ho : server.clients o = some c := by simpa [heq] using ho
      have hfd : (server.objects o).descriptor = some fd := by simpa [setObject, heq] using hfd
      have hobject : (server.setObject o' ((server.objects o').establish fd')).objects o =
          server.objects o := by simp [setObject, heq]
      exact (h o c fd ho hfd).frame hwf ⟨hobject ▸ .refl _, fun hstate => hobject ▸ hstate,
        fun _ => id, fun _ ht _ => ht, fun _ _ => .inl, fun _ ht _ => ht, id, rfl, rfl⟩

/-! ## A step -/

/-- What holds of every client, and where it is. -/
structure Inv (Late Taken : Prop) (setup : WebsocketSetup) (server : HttpsWebsocketServer size) :
    Prop where
  wf : Wf server
  phases : Phases Late Taken setup server

theorem inv_start : Inv Late Taken setup (start size) := ⟨wf_start, fun _ _ _ h => by cases h⟩

/-- The values of an object that opens no connection. -/
theorem Inv.setConnection (h : Inv Late Taken setup server) {o : Fin size}
    {object : HttpWebsocketConnectionIO} (hkeeps : Keeps (server.objects o) object)
    (hstate : (server.objects o).state = .waitingHttpUpgrade → object.state = .waitingHttpUpgrade) :
    Inv Late Taken setup (server.setConnection o object) := by
  refine ⟨h.wf.setConnection hkeeps, fun o' c fd ho' hfd => ?_⟩
  have hframe := frame_setConnection c fd hkeeps fun _ : o' = o => hstate
  rw [hframe.objects.descriptor] at hfd
  exact (h.phases o' c fd ho' hfd).frame h.wf hframe

/-- **A connection is opened**: its `on_connect` is the last one that was started. -/
theorem Inv.opening (h : Inv Late Taken setup server) {o : Fin size} {conn : ℕ}
    {object : HttpWebsocketConnectionIO} (ho : server.clients o = some conn)
    (hkeeps : Keeps (server.objects o) object)
    (hwait : (server.objects o).state = .waitingHttpUpgrade)
    (hopen : object.state ≠ .waitingHttpUpgrade) :
    Inv Late Taken setup ((server.setConnection o object).postEffect o conn .runOnConnect) := by
  have hobject : (server.setConnection o object).objects o = object := by
    simp [HttpsWebsocketServer.setConnection, setObject]
  have hwf := h.wf.setConnection hkeeps
  have hbelow := h.wf.below o conn (h.wf.latest o conn ho)
  have hlabel : conn ∉ server.labels := by
    cases hfd : (server.objects o).descriptor with
    | none => exact absurd hfd (h.wf.descriptor o conn ho)
    | some fd =>
      rcases h.phases o conn fd ho hfd with hidle | ⟨k, s, hconnecting⟩ | hdone
      · exact hidle.label
      · exact absurd hwait hconnecting.isOpen
      · exact absurd hwait hdone.isOpen
  refine ⟨hwf.startChain _ rfl (fun c hc => ?_) (fun _ _ _ _ heq => by cases heq), ?_⟩
  · cases hc
    exact ⟨hlabel, hbelow⟩
  · intro o' c fd ho' hfd
    by_cases heq : o' = o
    · subst heq
      have hc : conn = c := Option.some_inj.mp (ho.symm.trans ho')
      subst hc
      refine .inr (.inl ⟨server.chains, 0, by omega, by rwa [← hobject] at hopen,
        List.mem_append_right _ List.mem_cons_self, fun t ht htouches p hp => ?_,
        fun chain message hmem => ?_, fun h => by cases h⟩)
      · rcases List.mem_append.mp ht with ht | ht
        · exact (h.wf.chains t ht p hp).le
        · rw [List.mem_singleton.mp ht] at hp
          cases hp
          exact le_rfl
      · rcases List.mem_append.mp hmem with hmem | hmem
        · exact absurd hwait ((h.wf.messages o' conn chain message hmem).2 ho)
        · cases List.mem_singleton.mp hmem
    · have hframe := frame_setConnection c fd hkeeps fun heq' : o' = o =>
        absurd heq' heq
      have hphase := (h.phases o' c fd ho' (by rw [← hframe.objects.descriptor]; exact hfd)).frame
        h.wf hframe
      refine hphase.frame hwf (frame_post (.runOnConnect o conn server.chains)
        rfl rfl rfl rfl rfl rfl ⟨fun heq' => heq heq'.symm, fun _ _ h => (by cases h), ?_, ?_⟩)
      · rintro (h | h) <;> cases h
      · intro hlabel'
        cases hlabel'
        exact heq (h.wf.inj o' o conn ho' ho)

theorem Inv.message (h : Inv Late Taken setup server) {o : Fin size} {conn : ℕ}
    (message : List UInt8) (hbelow : conn < server.accepted)
    (hopen : server.clients o = some conn → (server.objects o).state ≠ .waitingHttpUpgrade) :
    Inv Late Taken setup (server.postEffect o conn (.runOnMessage message)) :=
  ⟨h.wf.startChain _ rfl (fun _ h => by cases h) fun _ _ _ _ heq => by
      cases heq; exact ⟨hbelow, hopen⟩,
    h.phases.message h.wf o conn message⟩

theorem Inv.delFd (h : Inv Late Taken setup server) (o : Fin size) :
    Inv Late Taken setup (server.delFd o) := ⟨h.wf.delFd o, h.phases.delFd h.wf o⟩

theorem Inv.accept (h : Inv Late Taken setup server) {fd : ℕ} (hfree : server.Free fd) :
    Inv Late Taken setup (server.accept fd) := ⟨h.wf.accept hfree, h.phases.accept h.wf fd⟩

theorem Inv.terminated (h : Inv Late Taken setup server) :
    Inv Late Taken setup { server with terminated := true } :=
  ⟨{ h.wf with }, fun o c fd ho hfd => (h.phases o c fd ho hfd).frame h.wf
    ⟨.refl _, id, fun _ => id, fun _ ht _ => ht, fun _ _ => .inl, fun _ ht _ => ht, id, rfl, rfl⟩⟩

/-- A call of `write_to_connection`. -/
theorem Inv.writeToConnection (h : Inv Late Taken setup server) (fd : ℕ) (message : List UInt8) :
    Inv Late Taken setup (server.post (.writeToConnection fd message)) := by
  refine ⟨h.wf.post rfl rfl, fun o c fd' ho hfd => (h.phases o c fd' ho hfd).frame h.wf
    (frame_post (.writeToConnection fd message) rfl rfl rfl rfl rfl rfl
      ⟨id, fun _ _ heq => (by cases heq), ?_, fun heq => by cases heq⟩)⟩
  rintro (h | h) <;> cases h

/-- The handler of a route returns. -/
theorem Inv.returned (h : Inv Late Taken setup server) {i : ℕ}
    (hi : server.waiting[i]? = some task) : Inv Late Taken setup (server.returned i task) := by
  have hplace := h.wf.waiting task (List.mem_of_getElem? hi)
  refine ⟨h.wf.returned hi, fun o c fd ho hfd => (h.phases o c fd ho hfd).frame h.wf ?_⟩
  exact
    { objects := .refl _
      state := id
      subset := fun t ht => List.mem_append_left _ ht
      touches := fun t ht htouches => by
        rcases List.mem_append.mp ht with ht | ht
        · exact ht
        · obtain ⟨n, k, htask, -⟩ := htouches.place
          rw [List.mem_singleton.mp ht, hplace] at htask
          cases htask
      messages := fun chain message hmem => by
        rcases List.mem_append.mp hmem with hmem | hmem
        · exact .inl hmem
        · rw [← List.mem_singleton.mp hmem] at hplace
          cases hplace
      clears := fun t ht _ => by
        rcases List.mem_append.mp ht with ht | ht
        · rcases List.mem_append.mp ht with ht | ht
          · exact List.mem_append_left _ ht
          · rw [List.mem_singleton.mp ht]
            exact List.mem_append_right _ (List.mem_of_getElem? hi)
        · exact List.mem_append_right _ (List.mem_of_mem_eraseIdx ht)
      label := fun hc => by
        rwa [← List.count_pos_iff, count_labels_returned hi, List.count_pos_iff] at hc
      connections := rfl
      routes := rfl }

/-- **What a read has left.** -/
theorem Inv.after (h : Inv Late Taken setup server) {o : Fin size} {conn : ℕ} {handled : Handled}
    (ho : server.clients o = some conn) (hreads : Reads (server.objects o) handled) :
    Inv Late Taken setup (server.after o conn (some handled)) := by
  have hkeeps := hreads.keeps
  have hbelow := h.wf.below o conn (h.wf.latest o conn ho)
  have hobject : (server.setConnection o handled.conn).objects o = handled.conn := by
    simp [HttpsWebsocketServer.setConnection, setObject]
  refine after_induction (P := fun s => Inv Late Taken setup s ∧ s.objects o = handled.conn ∧
    conn < s.accepted) hreads (fun hstate => ⟨h.setConnection hkeeps hstate, hobject, hbelow⟩)
    (fun hwait hopen => ⟨h.opening ho hkeeps hwait hopen, hobject, hbelow⟩)
    (fun s message hopen hs => ⟨hs.1.message message hs.2.2 fun _ => hs.2.1 ▸ hopen, hs.2⟩)
    (fun s hs => hs.1) fun s hs => hs.1.delFd o

/-- What the socket has taken. -/
theorem Inv.wrote (h : Inv Late Taken setup server) (o : Fin size) (conn : ℕ)
    (outcomes : List SocketOutcome) :
    Inv Late Taken setup
      (server.after o conn (some ((server.objects o).handleWrite outcomes))) := by
  have hset : Inv Late Taken setup
      (server.setConnection o ((server.objects o).handleWrite outcomes).conn) :=
    h.setConnection ⟨rfl, rfl, id, fun _ => rfl⟩ id
  unfold HttpsWebsocketServer.after
  dsimp only
  split
  · exact hset
  · exact hset.delFd o

/-- The coroutine that a step runs. -/
def front (server : HttpsWebsocketServer size) : WebsocketEvent size → Option (ServerTask size)
  | .runTask => server.queue.head?
  | _ => none

/-- **When a route is set, no `on_disconnect` of the descriptor has still to end.** -/
def NoLateEnd (server : HttpsWebsocketServer size) (event : WebsocketEvent size) : Prop :=
  ∀ task ∈ server.front event, ∀ fd ∈ task.registers,
    ∀ t ∈ server.queue.tail ++ server.waiting, ¬ Clears fd t

instance (server : HttpsWebsocketServer size) (event : WebsocketEvent size) :
    Decidable (NoLateEnd server event) :=
  inferInstanceAs (Decidable (∀ task ∈ server.front event, ∀ fd ∈ task.registers,
    ∀ t ∈ server.queue.tail ++ server.waiting, ¬ Clears fd t))

/-- **A client that is rejected has not been followed by another one** on its object. -/
def NotTaken (server : HttpsWebsocketServer size) (event : WebsocketEvent size) : Prop :=
  ∀ task ∈ server.front event, ∀ p ∈ task.rejects, ∀ c ∈ server.clients p.1, c = p.2

/-- **A step keeps the phases.** -/
theorem Inv.step (h : Inv Late Taken setup server) {event : WebsocketEvent size}
    (hlate : Late ∨ NoLateEnd server event) (htaken : Taken ∨ NotTaken server event) :
    Inv Late Taken setup (server.step setup event).1 := by
  unfold HttpsWebsocketServer.step
  split
  · exact h
  · cases event with
    | accept fd =>
      dsimp only
      split
      · next hfree => exact h.accept hfree
      · exact h
    | handleRead o reads =>
      dsimp only
      split
      · exact h
      · next conn ho =>
        cases hhandled : (server.objects o).handleRead setup.sha1 true reads with
        | none => exact h.terminated
        | some handled => exact h.after ho (reads_handleRead hhandled)
    | handleWrite o outcomes =>
      dsimp only
      split
      · exact h
      · split
        · exact h.wrote o _ outcomes
        · exact h
    | disconnect o => exact h.delFd o
    | runTask =>
      dsimp only [runTask]
      split
      · exact h
      · next task rest hqueue =>
        refine ⟨h.wf.run hqueue (ran_run setup (server.popped rest) task),
          h.phases.run h.wf hqueue ?_ ?_⟩
        · refine hlate.imp_right fun hlate o fd conn chain path token htask t ht => ?_
          have hfront : task ∈ server.front .runTask := congrArg List.head? hqueue
          exact hlate task hfront fd (by rw [htask]; rfl) t (by rwa [hqueue])
        · refine htaken.imp_right fun htaken o conn reason htask => ?_
          have hfront : task ∈ server.front .runTask := congrArg List.head? hqueue
          exact htaken task hfront (o, conn) (by rw [htask]; rfl)
    | routeReturns i =>
      dsimp only
      split
      · exact h
      · next task hi => exact h.returned hi
    | writeToConnection fd message => exact h.writeToConnection fd message

end HttpsWebsocketServer

end TradingEngine
