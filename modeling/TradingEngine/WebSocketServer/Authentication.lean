import TradingEngine.WebSocketServer.OnConnect

/-!
# WebSocketServer/Authentication — messages of clients that were not let in

A frame is dispatched to the route of its descriptor whether or not `on_connect` has returned true.
If the messages of a client of a protected route start only once it has been let in, and no
coroutine meets the object of another client, no protected route sees a message of anyone else
(`dispatches_checked`).
-/

namespace TradingEngine

open HttpWebsocketConnectionIO ServerTask WebSocket

/-- Whether the route of a path asks for a token. -/
def WebsocketSetup.needsCheck (setup : WebsocketSetup) (path : List UInt8) : Bool :=
  (setup.routes (.ofPath path)).any (·.needCheckAuthentication)

namespace ServerTask

variable {size : ℕ}

/-- A message that is on its way to the route: its descriptor, client and chain. -/
def carries : ServerTask size → Option (ℕ × ℕ × ℕ)
  | .ioOnMessage fd conn chain _ => some (fd, conn, chain)
  | .onMessage fd conn chain _ => some (fd, conn, chain)
  | _ => none

/-- The descriptor whose route `on_connect` will set, and its chain. -/
def connects : ServerTask size → Option (ℕ × ℕ)
  | .ioOnConnect _ fd _ chain => some (fd, chain)
  | .onConnect _ fd _ chain _ _ => some (fd, chain)
  | _ => none

end ServerTask

namespace HttpsWebsocketServer

variable {size : ℕ} (setup : WebsocketSetup) (server : HttpsWebsocketServer size)

/-! ## The property and the condition -/

/-- A client whose `on_connect` has returned true, and whose connection is not closing. -/
structure Authenticated (c : ℕ) : Prop where
  approved : c ∈ server.approved
  closed : c ∉ server.closed
  state : ∀ o, server.clients o = some c → (server.objects o).state ≠ .closing

/-- **A protected route sees only clients that were let in**: the one that has sent the message, and
the one that has the descriptor. -/
def DispatchesChecked (event : WebsocketEvent size) : Prop :=
  ∀ d ∈ (server.step setup event).2, d.route.needCheckAuthentication = true →
    server.Authenticated d.conn ∧
      ∀ o c, server.clients o = some c → (server.objects o).descriptor = some d.fd →
        server.Authenticated c

/-- **A coroutine comes in time**: its object has not been given to another client, nor has the
descriptor of a message for a protected route, and a client of a protected route sends messages only
once it has been let in. -/
def InTime : ServerTask size → Prop
  | .ioOnConnect o _ conn _ => server.latest o = some conn
  | .runOnConnectReturns o conn (some _) => ∀ c ∈ server.clients o, c = conn
  | .runOnMessage o conn _ _ => ∀ c ∈ server.clients o, c = conn ∧
      (setup.needsCheck (server.objects o).upgradeRequest.path = true →
        conn ∈ server.approved ∧ conn ∉ server.closed)
  | .onMessage fd conn _ _ =>
      (server.routesByFd fd).any (·.needCheckAuthentication) = true →
        ∀ o, ∀ c ∈ server.clients o, (server.objects o).descriptor = some fd → c = conn
  | _ => True

/-- **A step comes in time**: its coroutine does, a client of a protected route is sent a close frame
only when no message of it is on its way, and the tables have an entry for a new client. -/
def StepInTime (event : WebsocketEvent size) : Prop :=
  (∀ task ∈ server.front event, server.InTime setup task) ∧ event.InTables ∧
    match event with
    | .handleRead o reads => ∀ c ∈ server.clients o,
        setup.needsCheck (server.objects o).upgradeRequest.path = true →
          ((server.objects o).handleRead setup.sha1 true reads).any (·.conn.state = .closing) →
            ∀ t ∈ server.queue, ∀ message ∈ t.carries, message.2.1 ≠ c
    | _ => True

instance : DecidablePred (server.InTime setup)
  | .ioOnConnect o _ conn _ => inferInstanceAs (Decidable (server.latest o = some conn))
  | .runOnConnectReturns o conn (some _) =>
    inferInstanceAs (Decidable (∀ c ∈ server.clients o, c = conn))
  | .runOnMessage o conn _ _ => inferInstanceAs (Decidable (∀ c ∈ server.clients o, c = conn ∧
      (setup.needsCheck (server.objects o).upgradeRequest.path = true →
        conn ∈ server.approved ∧ conn ∉ server.closed)))
  | .onMessage fd conn _ _ => inferInstanceAs (Decidable (
      (server.routesByFd fd).any (·.needCheckAuthentication) = true →
        ∀ o, ∀ c ∈ server.clients o, (server.objects o).descriptor = some fd → c = conn))
  | .runOnConnectReturns _ _ none => .isTrue trivial
  | .runOnConnect _ _ _ => .isTrue trivial
  | .onConnect _ _ _ _ _ _ => .isTrue trivial
  | .routeOnConnect _ _ => .isTrue trivial
  | .onConnectReturns _ _ => .isTrue trivial
  | .ioOnConnectReturns _ _ _ => .isTrue trivial
  | .ioOnMessage _ _ _ _ => .isTrue trivial
  | .ioOnDisconnect _ _ => .isTrue trivial
  | .onDisconnect _ _ => .isTrue trivial
  | .routeOnDisconnect _ => .isTrue trivial
  | .onDisconnectReturns _ => .isTrue trivial
  | .writeToConnection _ _ => .isTrue trivial

instance : DecidablePred (server.StepInTime setup)
  | .handleRead o _ => inferInstanceAs (Decidable (_ ∧ _ ∧ ∀ c ∈ server.clients o, _ → _ →
      ∀ t ∈ server.queue, ∀ message ∈ t.carries, message.2.1 ≠ c))
  | .accept _ => inferInstanceAs (Decidable (_ ∧ _ ∧ True))
  | .handleWrite _ _ => inferInstanceAs (Decidable (_ ∧ _ ∧ True))
  | .disconnect _ => inferInstanceAs (Decidable (_ ∧ _ ∧ True))
  | .runTask => inferInstanceAs (Decidable (_ ∧ _ ∧ True))
  | .routeReturns _ => inferInstanceAs (Decidable (_ ∧ _ ∧ True))
  | .writeToConnection _ _ => inferInstanceAs (Decidable (_ ∧ _ ∧ True))

/-! ## What a message will find -/

/-- **The route that a message finds needs no token**: the last `on_connect` of the descriptor that
was started in front of it is under way, or over, and its path is that of such a route. -/
inductive Harmless (fd n : ℕ) : Prop
  | ioOnConnect (o : Fin size) (c k : ℕ) (hlt : k < n)
      (hmem : .ioOnConnect o fd c k ∈ server.queue)
      (hpath : server.latest o = some c →
        setup.needsCheck (server.objects o).upgradeRequest.path = false)
      (hlast : ∀ t ∈ server.queue, ∀ m, t.connects = some (fd, m) → m ≤ k ∨ n < m)
  | onConnect (o : Fin size) (c k : ℕ) (path token : List UInt8) (hlt : k < n)
      (hmem : .onConnect o fd c k path token ∈ server.queue)
      (hpath : setup.needsCheck path = false)
      (hlast : ∀ t ∈ server.queue, ∀ m, t.connects = some (fd, m) → m ≤ k ∨ n < m)
  | registered (hroute : (server.routesByFd fd).any (·.needCheckAuthentication) = false)
      (hlast : ∀ t ∈ server.queue, ∀ m, t.connects = some (fd, m) → n < m)

variable {setup} {server} {server' : HttpsWebsocketServer size} {task : ServerTask size}
  {rest : List (ServerTask size)} {fd n : ℕ}

/-- Whatever starts no `on_connect` and sets no route leaves it so. -/
theorem Harmless.mono (h : Harmless setup server fd n)
    (hsubset : ∀ t ∈ server.queue, t ∈ server'.queue)
    (hnew : ∀ t ∈ server'.queue, t.connects ≠ none → t ∈ server.queue)
    (hroutes : server'.routesByFd = server.routesByFd)
    (hpath : ∀ o c k, .ioOnConnect o fd c k ∈ server.queue → server'.latest o = some c →
      server.latest o = some c ∧
        (server'.objects o).upgradeRequest = (server.objects o).upgradeRequest) :
    Harmless setup server' fd n := by
  have hold : ∀ t ∈ server'.queue, ∀ m, t.connects = some (fd, m) → t ∈ server.queue :=
    fun t ht m hm => hnew t ht (by rw [hm]; exact Option.some_ne_none _)
  cases h with
  | ioOnConnect o c k hlt hmem hneeds hlast =>
    refine .ioOnConnect o c k hlt (hsubset _ hmem) (fun hlatest => ?_)
      fun t ht m hm => hlast t (hold t ht m hm) m hm
    obtain ⟨hlatest', hrequest⟩ := hpath o c k hmem hlatest
    rw [hrequest]
    exact hneeds hlatest'
  | onConnect o c k path token hlt hmem hneeds hlast =>
    exact .onConnect o c k path token hlt (hsubset _ hmem) hneeds
      fun t ht m hm => hlast t (hold t ht m hm) m hm
  | registered hroute hlast =>
    exact .registered (hroutes ▸ hroute) fun t ht m hm => hlast t (hold t ht m hm) m hm

/-- The chain of a callback that will set a route. -/
theorem place_of_connects {m : ℕ} (h : task.connects = some (fd, m)) :
    ∃ j, task.place = some (m, j) ∧ j ≤ 2 := by
  cases task with
  | ioOnConnect o fd' c k =>
    cases h
    exact ⟨1, rfl, by omega⟩
  | onConnect o fd' c k path token =>
    cases h
    exact ⟨2, rfl, le_rfl⟩
  | _ => cases h

/-- **A coroutine leaves it so**, if it is no later `on_connect` that sets its route, and no earlier
one that is started. -/
theorem Harmless.run (hwf : Wf server) (hqueue : server.queue = task :: rest)
    (htime : server.InTime setup task) (h : Harmless setup server fd n)
    (hstarts : ∀ o c m, task = .runOnConnect o c m → n < m)
    (hregisters : ∀ o c m path token, task = .onConnect o fd c m path token → m < n) :
    Harmless setup ((server.popped rest).run setup task).1 fd n := by
  have hran := ran_run setup (server.popped rest) task
  have hordered := hqueue ▸ hwf.ordered
  -- no `on_connect` of the descriptor comes between the last one and the message
  have hlast' : ∀ k, (∀ t ∈ server.queue, ∀ m, t.connects = some (fd, m) → m ≤ k ∨ n < m) →
      ∀ t ∈ ((server.popped rest).run setup task).1.queue, ∀ m, t.connects = some (fd, m) →
        m ≤ k ∨ n < m := by
    intro k hlast t ht m hm
    rcases hran.mem_queue ht with ht | hnext
    · exact hlast t (hqueue ▸ List.mem_cons_of_mem _ ht) m hm
    · cases hnext with
      | runOnConnect c k' hcallbacks hfd =>
        cases hm
        exact .inr (hstarts _ _ _ rfl)
      | ioOnConnect o fd' c k' =>
        cases hm
        exact hlast _ (hqueue ▸ List.mem_cons_self) _ rfl
      | _ => cases hm
  cases h with
  | ioOnConnect o c k hlt hmem hneeds hlast =>
    rcases List.mem_cons.mp (hqueue ▸ hmem) with rfl | hmem
    · refine .onConnect o c k _ _ hlt (List.mem_append_right _ List.mem_cons_self) (hneeds htime)
        (hlast' k hlast)
    · refine .ioOnConnect o c k hlt (hran.subset hmem) (fun hlatest => ?_) (hlast' k hlast)
      rw [hran.request]
      exact hneeds (by rw [← hlatest, hran.latest]; rfl)
  | onConnect o c k path token hlt hmem hneeds hlast =>
    rcases List.mem_cons.mp (hqueue ▸ hmem) with rfl | hmem
    · refine .registered ?_ fun t ht m hm => ?_
      · change ((Function.update server.routesByFd fd (setup.routes (.ofPath path))) fd).any _ =
          false
        rw [Function.update_self]
        exact hneeds
      · rcases hlast' k hlast t ht m hm with hle | hlt'
        · -- an earlier chain would be further on than an `on_connect` can be
          rcases hran.mem_queue ht with ht | hnext
          · obtain ⟨j, hplace, hj⟩ := place_of_connects hm
            have hne := hordered.ne_front ht rfl hplace
            have hstage := hordered.stage_lt ht rfl hplace (lt_of_le_of_ne hle hne)
            dsimp only at hstage
            omega
          · cases hnext <;> cases hm
        · exact hlt'
    · exact .onConnect o c k path token hlt (hran.subset hmem) hneeds (hlast' k hlast)
  | registered hroute hlast =>
    refine .registered ?_ fun t ht m hm => ?_
    · rcases hran.routes with
        hsame | ⟨o, fd', c, k, path, token, rfl, hupdate⟩ | ⟨fd', rfl, hupdate⟩
      · rw [hsame]
        exact hroute
      · have hne : fd ≠ fd' := by
          rintro rfl
          have hlt := hlast _ (hqueue ▸ List.mem_cons_self) k rfl
          have hlt' := hregisters o c k path token rfl
          omega
        rw [hupdate, Function.update_of_ne hne]
        exact hroute
      · by_cases heq : fd = fd'
        · rw [hupdate, heq, Function.update_self]
          rfl
        · rw [hupdate, Function.update_of_ne heq]
          exact hroute
    · rcases hran.mem_queue ht with ht | hnext
      · exact hlast t (hqueue ▸ List.mem_cons_of_mem _ ht) m hm
      · cases hnext with
        | runOnConnect c k' hcallbacks hfd =>
          cases hm
          exact hstarts _ _ _ rfl
        | ioOnConnect o fd' c k' =>
          cases hm
          exact hlast _ (hqueue ▸ List.mem_cons_self) _ rfl
        | _ => cases hm

/-! ## The invariant -/

/-- A client of a protected route that was let in and was sent no close frame. -/
structure LetIn (setup : WebsocketSetup) (server : HttpsWebsocketServer size) (c : ℕ) : Prop where
  approved : c ∈ server.approved
  closed : c ∉ server.closed
  path : ∀ o, server.clients o = some c →
    setup.needsCheck (server.objects o).upgradeRequest.path = true

/-- A message comes from such a client, or will find a route that needs no token. -/
structure Checked (setup : WebsocketSetup) (server : HttpsWebsocketServer size) : Prop where
  closing : ∀ o c, server.clients o = some c → (server.objects o).state = .closing →
    c ∈ server.closed
  messages : ∀ t ∈ server.queue, ∀ fd c n, t.carries = some (fd, c, n) →
    Harmless setup server fd n ∨ LetIn setup server c

theorem checked_start : Checked setup (start size) where
  closing _ _ h := by cases h
  messages _ h := by cases h

/-- A client whose `on_connect` was started has an open connection. -/
theorem Inv.isOpen {Late Taken : Prop} (h : Inv Late Taken setup server) {o : Fin size} {c : ℕ}
    (ho : server.clients o = some c) (hlabel : c ∈ server.labels) :
    (server.objects o).state ≠ .waitingHttpUpgrade := by
  cases hfd : (server.objects o).descriptor with
  | none => exact absurd hfd (h.wf.descriptor o c ho)
  | some fd =>
    rcases h.phases o c fd ho hfd with hidle | ⟨k, s, hconnecting⟩ | hdone
    · exact absurd hlabel hidle.label
    · exact hconnecting.isOpen
    · exact hdone.isOpen

theorem mem_labels_of_mem_queue {c : ℕ} (ht : task ∈ server.queue)
    (hlabel : task.connecting = some c) :
    c ∈ server.labels :=
  List.mem_append_left _ (List.mem_append_left _ (List.mem_filterMap.mpr ⟨task, ht, hlabel⟩))

theorem mem_labels_of_approved {c : ℕ} (h : c ∈ server.approved) : c ∈ server.labels :=
  List.mem_append_right _ h

/-! ### A coroutine -/

/-- What a client of a route without a token sends is harmless. -/
theorem harmless_runOnMessage (h : Inv True False setup server) {o : Fin size} {c : ℕ}
    {message : List UInt8} (hqueue : server.queue = .runOnMessage o c n message :: rest)
    (ho : server.clients o = some c) (hfd : (server.objects o).descriptor = some fd)
    (hpath : setup.needsCheck (server.objects o).upgradeRequest.path = false) :
    Harmless setup server fd n := by
  have hfront : .runOnMessage o c n message ∈ server.queue := hqueue ▸ List.mem_cons_self
  have hopen := (h.wf.messages o c n message hfront).2 ho
  have htouches : ∀ t : ServerTask size, ∀ m, t.connects = some (fd, m) → Touches o fd t := by
    intro t m hm
    cases t with
    | ioOnConnect o' fd' c' k' => cases hm; exact rfl
    | onConnect o' fd' c' k' path token => cases hm; exact rfl
    | _ => cases hm
  rcases h.phases o c fd ho hfd with hidle | ⟨k, s, hconnecting⟩ | hdone
  · exact absurd (hidle.state.resolve_left id) hopen
  · have hlt := hconnecting.messages n message hfront
    have hplace := place_onConnectTask (server.objects o).upgradeRequest o c fd k hconnecting.stage
    have hown := (List.mem_cons.mp (hqueue ▸ hconnecting.own)).resolve_left fun heq => by
      have hlabel := connecting_onConnectTask (server.objects o).upgradeRequest o c fd k s
      rw [heq] at hlabel
      cases hlabel
    have hstage : 0 < s := (hqueue ▸ h.wf.ordered).stage_lt hown rfl hplace hlt
    have hlast : ∀ t ∈ server.queue, ∀ m, t.connects = some (fd, m) → m ≤ k ∨ n < m := by
      intro t ht m hm
      obtain ⟨j, hplace, -⟩ := place_of_connects hm
      exact .inl (hconnecting.last t ht (htouches t m hm) (m, j) hplace)
    match s, hconnecting.stage with
    | 1, _ => exact .ioOnConnect o c k hlt hconnecting.own (fun _ => hpath) hlast
    | 2, _ => exact .onConnect o c k _ _ hlt hconnecting.own hpath hlast
  · refine .registered ?_ fun t ht m hm => absurd (htouches t m hm) (hdone.quiet t ht)
    rcases hdone.route with hroute | ⟨-, hroute⟩
    · rw [hroute]
      exact hpath
    · rw [hroute]
      rfl

theorem LetIn.run (hwf : Wf server) (hqueue : server.queue = task :: rest)
    (htime : server.InTime setup task) {c : ℕ} (h : LetIn setup server c) :
    LetIn setup ((server.popped rest).run setup task).1 c := by
  have hran := ran_run setup (server.popped rest) task
  refine ⟨?_, ?_, fun o ho => ?_⟩
  · rcases hran.approved with hsame | ⟨o, conn, -, hupdate⟩
    · exact hsame ▸ h.approved
    · exact hupdate ▸ List.mem_append_left _ h.approved
  · rcases hran.closed with hsame | ⟨o, conn, reason, rfl, hupdate⟩
    · exact hsame ▸ h.closed
    · rw [hupdate, List.mem_append, not_or]
      refine ⟨h.closed, fun hmem => ?_⟩
      -- the client that is rejected is not one that was let in
      have hc : c = conn := htime c (Option.mem_toList.mp hmem)
      have hcount := hwf.labels c
      have hone : c ∈ server.queue.filterMap ServerTask.connecting :=
        List.mem_filterMap.mpr ⟨.runOnConnectReturns o conn (some reason),
          hqueue ▸ List.mem_cons_self, by rw [hc]; rfl⟩
      simp only [HttpsWebsocketServer.labels, List.count_append] at hcount
      have hone := List.count_pos_iff.mpr hone
      have htwo := List.count_pos_iff.mpr h.approved
      omega
  · rw [hran.request]
    rw [hran.clients] at ho
    exact h.path o ho

/-- **A coroutine keeps the invariant.** -/
theorem Checked.run (hinv : Inv True False setup server) (h : Checked setup server)
    (hqueue : server.queue = task :: rest) (htime : server.InTime setup task) :
    Checked setup ((server.popped rest).run setup task).1 := by
  have hran := ran_run setup (server.popped rest) task
  have hordered := hqueue ▸ hinv.wf.ordered
  have hclosed : ∀ c ∈ server.closed, c ∈ ((server.popped rest).run setup task).1.closed := by
    intro c hc
    rcases hran.closed with hsame | ⟨o, conn, reason, -, hupdate⟩
    · exact hsame ▸ hc
    · exact hupdate ▸ List.mem_append_left _ hc
  refine ⟨fun o c ho hstate => ?_, fun t ht fd c n hcarries => ?_⟩
  · rw [hran.clients] at ho
    rcases hran.closing o c hstate with hbefore | hclosing
    · exact hclosed c (h.closing o c ho hbefore)
    · exact hclosing ho
  · rcases hran.mem_queue ht with hrest | hnext
    · -- the message is behind the coroutine
      obtain ⟨j, hplace, hpos, hle⟩ : ∃ j, t.place = some (n, j) ∧ 1 ≤ j ∧ j ≤ 2 := by
        cases t with
        | ioOnMessage fd' c' n' message => cases hcarries; exact ⟨1, rfl, le_rfl, by omega⟩
        | onMessage fd' c' n' message => cases hcarries; exact ⟨2, rfl, by omega, le_rfl⟩
        | _ => cases hcarries
      refine (h.messages t (hqueue ▸ List.mem_cons_of_mem _ hrest) fd c n hcarries).imp
        (fun hharmless => hharmless.run hinv.wf hqueue htime ?_ ?_) (·.run hinv.wf hqueue htime)
      · rintro o c' m rfl
        rcases List.rel_of_pairwise_cons hordered hrest (m, 0) rfl (n, j) hplace with hlt | hlt
        · have hzero : j ≤ 0 := hlt.2
          omega
        · exact hlt.1
      · rintro o c' m path token rfl
        rcases List.rel_of_pairwise_cons hordered hrest (m, 2) rfl (n, j) hplace with hlt | hlt
        · exact hlt.1
        · have hmore : 2 < j := hlt.2
          omega
    · cases hnext with
      | @runOnMessage o fd c n message hcallbacks hfd =>
        cases hcarries
        obtain ⟨c', ho⟩ := Option.isSome_iff_exists.mp
          ((hinv.wf.hasCallbacks o).symm.trans hcallbacks)
        obtain ⟨rfl, hauth⟩ := htime c' ho
        by_cases hpath : setup.needsCheck (server.objects o).upgradeRequest.path = true
        · obtain ⟨happroved, hclosed⟩ := hauth hpath
          refine .inr (LetIn.run hinv.wf hqueue htime ⟨happroved, hclosed, fun o' ho' => ?_⟩)
          rwa [hinv.wf.inj o' o c' ho' ho]
        · have hharmless := harmless_runOnMessage hinv hqueue ho hfd (Bool.eq_false_iff.mpr hpath)
          refine .inl (hharmless.run hinv.wf hqueue htime ?_ ?_)
          · rintro o c' m heq
            cases heq
          · rintro o c' m path token heq
            cases heq
      | ioOnMessage fd c n message =>
        cases hcarries
        refine (h.messages _ (hqueue ▸ List.mem_cons_self) fd c n rfl).imp
          (fun hharmless => hharmless.run hinv.wf hqueue htime ?_ ?_) (·.run hinv.wf hqueue htime)
        · rintro o c' m heq
          cases heq
        · rintro o c' m path token heq
          cases heq
      | _ => cases hcarries

/-! ### The other operations -/

/-- **The frame rule.** -/
theorem Checked.frame (h : Checked setup server)
    (hclosing : ∀ o c, server'.clients o = some c → (server'.objects o).state = .closing →
      c ∈ server'.closed)
    (hsubset : ∀ t ∈ server.queue, t ∈ server'.queue)
    (hnew : ∀ t ∈ server'.queue, t.connects ≠ none ∨ t.carries ≠ none → t ∈ server.queue)
    (hroutes : server'.routesByFd = server.routesByFd)
    (hpath : ∀ o fd c k, .ioOnConnect o fd c k ∈ server.queue → server'.latest o = some c →
      server.latest o = some c ∧
        (server'.objects o).upgradeRequest = (server.objects o).upgradeRequest)
    (hletIn : ∀ t ∈ server.queue, ∀ fd c n, t.carries = some (fd, c, n) →
      LetIn setup server c → LetIn setup server' c) : Checked setup server' where
  closing := hclosing
  messages t ht fd c n hcarries := by
    have hold := hnew t ht (.inr (by rw [hcarries]; exact Option.some_ne_none _))
    exact (h.messages t hold fd c n hcarries).imp
      (·.mono hsubset (fun t ht hconnects => hnew t ht (.inl hconnects)) hroutes
        fun o c k => hpath o fd c k)
      (hletIn t hold fd c n hcarries)

/-- A coroutine is posted that is neither a message nor an `on_connect` with a descriptor. -/
theorem Checked.post (h : Checked setup server) (task : ServerTask size)
    (hconnects : task.connects = none)
    (hcarries : task.carries = none) (hobjects : server'.objects = server.objects)
    (hclients : server'.clients = server.clients) (hlatest : server'.latest = server.latest)
    (happroved : server'.approved = server.approved) (hclosed : server'.closed = server.closed)
    (hroutes : server'.routesByFd = server.routesByFd)
    (hqueue : server'.queue = server.queue ++ [task]) : Checked setup server' := by
  refine h.frame (fun o c ho hstate => ?_) (fun t ht => hqueue ▸ List.mem_append_left _ ht)
    (fun t ht hnone => ?_) hroutes (fun o fd c k _ hl => ⟨hlatest ▸ hl, by rw [hobjects]⟩)
    fun t _ fd c n _ hletIn => ⟨happroved ▸ hletIn.approved, hclosed ▸ hletIn.closed, ?_⟩
  · rw [hclients] at ho
    rw [hobjects] at hstate
    exact hclosed ▸ h.closing o c ho hstate
  · rw [hqueue, List.mem_append, List.mem_singleton] at ht
    refine ht.resolve_right ?_
    rintro rfl
    exact hnone.elim (· hconnects) (· hcarries)
  · rw [hobjects, hclients]
    exact hletIn.path

theorem Checked.terminated (h : Checked setup server) :
    Checked setup { server with terminated := true } :=
  h.frame h.closing (fun _ => id) (fun _ ht _ => ht) rfl (fun _ _ _ _ _ hl => ⟨hl, rfl⟩)
    fun _ _ _ _ _ _ hletIn => ⟨hletIn.approved, hletIn.closed, hletIn.path⟩

/-- A client has gone. -/
theorem Checked.delFd (h : Checked setup server) (o : Fin size) :
    Checked setup (server.delFd o) := by
  unfold HttpsWebsocketServer.delFd
  split
  · next c' fd' ho' hfd' =>
    have hother : ∀ {o' : Fin size} {c : ℕ},
        Function.update server.clients o none o' = some c →
          o' ≠ o ∧ server.clients o' = some c := by
      intro o' c ho
      by_cases heq : o' = o
      · subst heq
        simp at ho
      · exact ⟨heq, by simpa [heq] using ho⟩
    refine h.frame (fun o' c ho hstate => ?_) (fun t ht => List.mem_append_left _ ht)
      (fun t ht hnone => ?_) rfl (fun o' fd c k _ hlatest => ⟨hlatest, ?_⟩)
      fun t _ fd c n _ hletIn => ⟨hletIn.approved, hletIn.closed, fun o' ho => ?_⟩
    · obtain ⟨hne, ho⟩ := hother ho
      exact h.closing o' c ho (by simpa [setObject, hne] using hstate)
    · refine (List.mem_append.mp ht).resolve_right fun hmem => ?_
      rw [List.mem_singleton.mp hmem] at hnone
      exact hnone.elim (· rfl) (· rfl)
    · by_cases heq : o' = o
      · subst heq
        simp [setObject, refresh]
      · simp [setObject, heq]
    · obtain ⟨hne, ho⟩ := hother ho
      simpa [setObject, hne] using hletIn.path o' ho
  · exact h

/-- A client is accepted. -/
theorem Checked.accept (hwf : Wf server) (h : Checked setup server) (fd' : ℕ) :
    Checked setup (server.accept fd') := by
  unfold HttpsWebsocketServer.accept
  split
  · exact h.terminated
  · next o available havailable =>
    have hfresh : ∀ {table : Fin size → Option ℕ} {o' : Fin size} {c : ℕ}, c ∈ server.labels →
        Function.update table o (some server.accepted) o' = some c →
          o' ≠ o ∧ table o' = some c := by
      intro table o' c hlabel ho'
      by_cases heq : o' = o
      · subst heq
        rw [Function.update_self] at ho'
        cases ho'
        exact absurd (hwf.labelsBelow _ hlabel) (Nat.lt_irrefl _)
      · exact ⟨heq, by simpa [heq] using ho'⟩
    refine h.frame (fun o' c ho hstate => ?_) (fun _ => id) (fun _ ht _ => ht) rfl
      (fun o' fd c k hmem hlatest => ?_)
      fun t _ fd c n _ hletIn => ⟨hletIn.approved, hletIn.closed, fun o' ho => ?_⟩
    · by_cases heq : o' = o
      · subst heq
        simp [setObject, establish, refresh] at hstate
      · exact h.closing o' c (by simpa [heq] using ho) (by simpa [setObject, heq] using hstate)
    · obtain ⟨hne, hlatest⟩ := hfresh (mem_labels_of_mem_queue hmem rfl) hlatest
      exact ⟨hlatest, by simp [setObject, hne]⟩
    · obtain ⟨hne, ho⟩ := hfresh (mem_labels_of_approved hletIn.approved) ho
      simpa [setObject, hne] using hletIn.path o' ho

/-- The handler of a route returns. -/
theorem Checked.returned (hwf : Wf server) (h : Checked setup server) {i : ℕ}
    (hi : server.waiting[i]? = some task) : Checked setup (server.returned i task) := by
  have hplace := hwf.waiting task (List.mem_of_getElem? hi)
  refine h.post task ?_ ?_ rfl rfl rfl rfl rfl rfl rfl
  · cases task with
    | ioOnConnect o fd c k => cases hplace
    | onConnect o fd c k path token => cases hplace
    | _ => rfl
  · cases task with
    | ioOnMessage fd c k message => cases hplace
    | onMessage fd c k message => cases hplace
    | _ => rfl

/-- The values of an object: no message of a client is on its way when it is sent a close frame. -/
theorem Checked.setConnection {Late Taken : Prop} (hinv : Inv Late Taken setup server)
    (h : Checked setup server) {o : Fin size} {conn : ℕ} {object : HttpWebsocketConnectionIO}
    (ho : server.clients o = some conn) (hkeeps : Keeps (server.objects o) object)
    (hclose : object.state = .closing → (server.objects o).state ≠ .closing →
      setup.needsCheck (server.objects o).upgradeRequest.path = true →
        ∀ t ∈ server.queue, ∀ message ∈ t.carries, message.2.1 ≠ conn) :
    Checked setup (server.setConnection o object) := by
  have hrequest : ∀ o' c, server.latest o' = some c → c ∈ server.labels →
      ((server.setConnection o object).objects o').upgradeRequest =
        (server.objects o').upgradeRequest := by
    intro o' c hlatest hlabel
    by_cases heq : o' = o
    · subst heq
      have hc : conn = c := Option.some_inj.mp ((hinv.wf.latest o' conn ho).symm.trans hlatest)
      subst hc
      simpa [HttpsWebsocketServer.setConnection, setObject] using
        hkeeps.request (hinv.isOpen ho hlabel)
    · simp [HttpsWebsocketServer.setConnection, setObject, heq]
  have hclosed : ∀ c ∈ server.closed, c ∈ (server.setConnection o object).closed := by
    intro c hc
    simp only [HttpsWebsocketServer.setConnection]
    split
    · exact List.mem_append_left _ hc
    · exact hc
  refine h.frame (fun o' c ho' hstate => ?_) (fun _ => id) (fun _ ht _ => ht) rfl
    (fun o' fd c k hmem hlatest =>
      ⟨hlatest, hrequest o' c hlatest (mem_labels_of_mem_queue hmem rfl)⟩)
    fun t ht fd c n hcarries hletIn => ⟨hletIn.approved, ?_, fun o' ho' => ?_⟩
  · rcases closing_setConnection c hstate with hbefore | hafter
    · exact hclosed c (h.closing o' c ho' hbefore)
    · exact hafter ho'
  · simp only [HttpsWebsocketServer.setConnection]
    split
    · next hnow =>
      rw [List.mem_append, not_or]
      refine ⟨hletIn.closed, fun hmem => ?_⟩
      have hc : server.clients o = some c := Option.mem_toList.mp hmem
      have heq : c = conn := Option.some_inj.mp (hc.symm.trans ho)
      exact hclose hnow.2 hnow.1 (hletIn.path o hc) t ht _ hcarries heq
    · exact hletIn.closed
  · rw [hrequest o' c (hinv.wf.latest o' c ho') (mem_labels_of_approved hletIn.approved)]
    exact hletIn.path o' ho'

/-! ## A step -/

/-- **A step in time keeps the invariant.** -/
theorem Checked.step (hinv : Inv True False setup server) (h : Checked setup server)
    {event : WebsocketEvent size} (htime : server.StepInTime setup event) :
    Checked setup (server.step setup event).1 := by
  unfold HttpsWebsocketServer.step
  split
  · exact h
  · cases event with
    | accept fd =>
      dsimp only
      split
      · exact h.accept hinv.wf fd
      · exact h
    | handleRead o reads =>
      dsimp only
      split
      · exact h
      · next conn ho =>
        cases hhandled : (server.objects o).handleRead setup.sha1 true reads with
        | none => exact h.terminated
        | some handled =>
          have hreads := reads_handleRead hhandled
          have hset : Checked setup (server.setConnection o handled.conn) := by
            refine h.setConnection hinv ho hreads.keeps fun hclosing _ hpath => ?_
            refine htime.2.2 conn ho hpath ?_
            rw [hhandled]
            exact decide_eq_true hclosing
          exact after_induction (P := Checked setup) hreads (fun _ => hset)
            (fun _ _ => hset.post (.runOnConnect o conn server.chains)
              rfl rfl rfl rfl rfl rfl rfl rfl rfl)
            (fun s message _ hs => hs.post (.runOnMessage o conn s.chains message)
              rfl rfl rfl rfl rfl rfl rfl rfl rfl)
            (fun _ => id) fun s hs => hs.delFd o
    | handleWrite o outcomes =>
      dsimp only
      split
      · exact h
      · next conn ho =>
        split
        · have hset : Checked setup
              (server.setConnection o ((server.objects o).handleWrite outcomes).conn) :=
            h.setConnection hinv ho ⟨rfl, rfl, id, fun _ => rfl⟩
              fun hafter hbefore => absurd hafter hbefore
          unfold HttpsWebsocketServer.after
          dsimp only
          split
          · exact hset
          · exact hset.delFd o
        · exact h
    | disconnect o => exact h.delFd o
    | runTask =>
      dsimp only [runTask]
      split
      · exact h
      · next task rest hqueue =>
        exact h.run hinv hqueue (htime.1 task (congrArg List.head? hqueue))
    | routeReturns i =>
      dsimp only
      split
      · exact h
      · next task hi => exact h.returned hinv.wf hi
    | writeToConnection fd message =>
      exact h.post (.writeToConnection fd message) rfl rfl rfl rfl rfl rfl rfl rfl rfl

/-- Only `on_message` dispatches, to the route that is registered. -/
theorem mem_dispatches {event : WebsocketEvent size} {d : Dispatch}
    (h : d ∈ (server.step setup event).2) :
    event = .runTask ∧
      (∃ chain, server.queue.head? = some (.onMessage d.fd d.conn chain d.message)) ∧
      server.routesByFd d.fd = some d.route := by
  unfold HttpsWebsocketServer.step at h
  split at h
  · cases h
  · cases event with
    | runTask =>
      dsimp only [runTask] at h
      split at h
      · cases h
      · next task rest hqueue =>
        cases task with
        | onMessage fd conn chain message =>
          obtain ⟨route, hroute, rfl⟩ := List.mem_map.mp h
          exact ⟨rfl, ⟨chain, congrArg List.head? hqueue⟩, Option.mem_toList.mp hroute⟩
        | _ => cases h
    | _ => cases h

/-- **What is dispatched in time is dispatched for a client that was let in.** -/
theorem Checked.dispatches (hwf : Wf server) (h : Checked setup server)
    {event : WebsocketEvent size} (htime : server.StepInTime setup event) :
    server.DispatchesChecked setup event := by
  intro d hd hneeds
  obtain ⟨rfl, ⟨chain, hhead⟩, hroute⟩ := mem_dispatches hd
  have hany : (server.routesByFd d.fd).any (·.needCheckAuthentication) = true := by
    rw [hroute]
    exact hneeds
  obtain ⟨rest, hqueue⟩ := List.head?_eq_some_iff.mp hhead
  have hmem : .onMessage d.fd d.conn chain d.message ∈ server.queue := hqueue ▸ List.mem_cons_self
  have hordered := hqueue ▸ hwf.ordered
  have hletIn := (h.messages _ hmem d.fd d.conn chain rfl).resolve_left fun hharmless => by
    -- the `on_connect` would have run before the message
    cases hharmless with
    | ioOnConnect o c k hlt hown hpath hlast =>
      have hown := (List.mem_cons.mp (hqueue ▸ hown)).resolve_left (by simp)
      have hstage := hordered.stage_lt hown rfl rfl hlt
      exact absurd hstage (by decide : ¬ 2 < 1)
    | onConnect o c k path token hlt hown hpath hlast =>
      have hown := (List.mem_cons.mp (hqueue ▸ hown)).resolve_left (by simp)
      exact absurd (hordered.stage_lt hown rfl rfl hlt) (Nat.lt_irrefl 2)
    | registered hnone hlast => exact absurd hany (by rw [hnone]; exact Bool.false_ne_true)
  have hauth : server.Authenticated d.conn :=
    ⟨hletIn.approved, hletIn.closed,
      fun o ho hstate => hletIn.closed (h.closing o d.conn ho hstate)⟩
  refine ⟨hauth, fun o c ho hfd => ?_⟩
  rw [htime.1 _ hhead hany o c ho hfd]
  exact hauth

/-- **In every run whose steps come in time, a protected route sees only clients that were let
in.** -/
theorem dispatches_checked (setup : WebsocketSetup) {events : List (WebsocketEvent size)}
    (h : Run.Along (Run.next (step setup)) (StepInTime setup) (start size) events) :
    Run.Along (Run.next (step setup)) (DispatchesChecked setup) (start size) events := by
  refine Run.along_of_invariant
    (I := fun server => Inv True False setup server ∧ Checked setup server)
    (fun server event hserver htime => ⟨?_, hserver.2.step hserver.1 htime⟩)
    (fun server event hserver htime => hserver.2.dispatches hserver.1.wf htime)
    ⟨inv_start, checked_start⟩ h
  refine hserver.1.step (.inl trivial) (.inr fun task htask p hp => ?_)
  have hin := htime.1 task htask
  cases task with
  | runOnConnectReturns o conn rejection =>
    cases rejection with
    | none => cases hp
    | some reason =>
      cases hp
      exact hin
  | _ => cases hp

/-- A text frame without a text. -/
def textRead : ReadResult := .bytes 0x81 [0x80, 0, 0, 0, 0] .wouldBlock

/-- A client with a good token is let in and sends a message. -/
def letInRun : List (WebsocketEvent 2) :=
  orderRun ++ [.handleRead firstObject [textRead], .runTask, .runTask, .runTask]

theorem dispatches_checked_letInRun :
    Run.trace (step orderSetup) (start 2) letInRun = [⟨⟨.order, true⟩, 5, 0, []⟩] ∧
      Run.Along (Run.next (step orderSetup)) (DispatchesChecked orderSetup) (start 2) letInRun := by
  refine ⟨?_, dispatches_checked orderSetup ?_⟩
  · rw [letInRun, orderRun, ReadResult.upgradeRead, WebsocketUpgradeRequest.orderUpgrade,
      Ascii.text_ofList, Ascii.text_ofList]
    decide +kernel
  · rw [letInRun, orderRun, ReadResult.upgradeRead, WebsocketUpgradeRequest.orderUpgrade,
      Ascii.text_ofList, Ascii.text_ofList]
    decide +kernel

/-- A client whose token is not taken sends its upgrade and a message in one read. -/
def forgedRun : List (WebsocketEvent 1) :=
  [.accept 5, .handleRead 0 [.upgradeRead, textRead], .runTask, .runTask, .runTask, .runTask,
    .runTask]

/-- Its message is dispatched while it is being rejected. -/
theorem forgedRun_not_checked :
    ¬ ∀ (size : ℕ) (setup : WebsocketSetup) (events : List (WebsocketEvent size)),
      Run.Along (Run.next (step setup)) (DispatchesChecked setup) (start size) events := by
  intro h
  let setup : WebsocketSetup := { orderSetup with verifyToken := fun _ => [] }
  have hsplit := Run.along_split (h 1 setup (forgedRun ++ [.runTask]))
  obtain ⟨hd, happroved⟩ :
      (⟨⟨.order, true⟩, 5, 0, []⟩ ∈ ((runEnd setup 1 forgedRun).step setup .runTask).2) ∧
        0 ∉ (runEnd setup 1 forgedRun).approved := by
    rw [forgedRun, ReadResult.upgradeRead, WebsocketUpgradeRequest.orderUpgrade,
      Ascii.text_ofList, Ascii.text_ofList]
    decide +kernel
  exact happroved (hsplit _ hd rfl).1.approved

end HttpsWebsocketServer

end TradingEngine
