import TradingEngine.Machinery.CriticalSection
import TradingEngine.Order.Order

/-!
# Coroutine/EventBaseManager — one event base for each id

`get_event_base_by_id` looks an id up in `event_base_list` and makes the event base that it does not
find, with the thread that runs its loop, all under a `SpinLock` that the guard's destructor gives
back, also when `std::thread` throws.  Threads call it as they like.
-/

namespace TradingEngine

open Run CriticalSection CriticalSection.Threads

/-- The ids that `enum_name` has a name for. -/
abbrev EventBaseManagerId : Type := { id : EventBaseId // EnumReflect.InTable id }

/-- What an event base is made as. -/
inductive EventBaseClass
  | eventBase
  | epollBase
  deriving DecidableEq

/-- An event base; the pointers to it are equal where the addresses are. -/
structure EventBaseObject where
  address : ℕ
  madeAs : EventBaseClass
  eventBaseId : EventBaseId
  deriving DecidableEq

/-- A thread with the core it is pinned to, its `CURRENT_EVENT_BASE` and the event base whose loop
it is in. -/
structure EventBaseThread where
  core : ℤ
  currentEventBase : EventBaseId
  loops : EventBaseObject
  deriving DecidableEq

/-- The static members, the number of event bases made so far and the threads that have started. -/
structure EventBaseManager where
  made : ℕ := 0
  eventBaseList : List (EventBaseManagerId × EventBaseObject) := []
  started : List EventBaseThread := []
  eventBaseThreads : List EventBaseThread := []
  deriving DecidableEq

namespace EventBaseManager

/-- Where `get_event_base_by_id` is. -/
inductive Point
  | find (id : EventBaseManagerId)
  | makeShared (id : EventBaseManagerId)
  | emplace (id : EventBaseManagerId) (eventBase : EventBaseObject)
  | thread (eventBase : EventBaseObject)
  | pushBack (eventBase : EventBaseObject) (thread : EventBaseThread)
  deriving DecidableEq

/-- `id_str.starts_with("EPOLL_")`. -/
def StartsWithEpoll (id : EventBaseId) : Prop := "EPOLL_".toList <+: (Reflected.name id).toList

instance (id : EventBaseId) : Decidable (StartsWithEpoll id) :=
  inferInstanceAs (Decidable (_ <+: _))

/-- The two names that do: the ids whose event bases the program casts to `EpollBase*`. -/
theorem startsWithEpoll_iff {id : EventBaseId} :
    StartsWithEpoll id ↔ id = .epollSystemIoTask ∨ id = .epollGateway := by
  cases id <;> decide

/-- What the id's name asks for. -/
def classOf (id : EventBaseManagerId) : EventBaseClass :=
  if StartsWithEpoll id.1 then .epollBase else .eventBase

/-- The body of the thread: it pins itself, sets `CURRENT_EVENT_BASE` and goes into the loop. -/
def threadOf (eventBase : EventBaseObject) : EventBaseThread where
  core := Reflected.value eventBase.eventBaseId
  currentEventBase := eventBase.eventBaseId
  loops := eventBase

/-- `event_base_list.find(id)`. -/
def lookup (m : EventBaseManager) (id : EventBaseManagerId) : Option EventBaseObject :=
  (m.eventBaseList.find? fun entry => entry.1 = id).map Prod.snd

/-- `get_event_base_by_id`, between the lock and its release; the input says whether the constructor
of the thread throws.  The result is nothing where the call throws. -/
def getEventBaseById :
    Body EventBaseManagerId Bool EventBaseManager Point (Option EventBaseObject) where
  start := .find
  step m point throws :=
    match point with
    | .find id =>
      match m.lookup id with
      | some eventBase => (m, .inr (some eventBase))
      | none => (m, .inl (.makeShared id))
    | .makeShared id =>
      ({ m with made := m.made + 1 }, .inl (.emplace id ⟨m.made, classOf id, id.1⟩))
    | .emplace id eventBase =>
      match m.lookup id with
      | some _ => (m, .inl (.thread eventBase))
      | none =>
        ({ m with eventBaseList := m.eventBaseList ++ [(id, eventBase)] }, .inl (.thread eventBase))
    | .thread eventBase =>
      if throws then (m, .inr none)
      else
        ({ m with started := m.started ++ [threadOf eventBase] },
          .inl (.pushBack eventBase (threadOf eventBase)))
    | .pushBack eventBase thread =>
      ({ m with eventBaseThreads := m.eventBaseThreads ++ [thread] }, .inr (some eventBase))

/-! ## A whole body -/

variable {m m' : EventBaseManager} {id : EventBaseManagerId} {eventBase : EventBaseObject}
  {thread : EventBaseThread} {r : Option EventBaseObject}

theorem of_pushBack (h : Runs getEventBaseById m (.pushBack eventBase thread) m' r) :
    m' = { m with eventBaseThreads := m.eventBaseThreads ++ [thread] } ∧ r = some eventBase := by
  cases h with
  | ends h =>
    obtain ⟨rfl, hr⟩ := Prod.mk.inj h
    exact ⟨rfl, (Sum.inr.inj hr).symm⟩
  | goesOn h => cases (Prod.mk.inj h).2

/-- The thread has started and is kept, or its constructor has thrown. -/
theorem of_thread (h : Runs getEventBaseById m (.thread eventBase) m' r) :
    (m' = { m with
        started := m.started ++ [threadOf eventBase]
        eventBaseThreads := m.eventBaseThreads ++ [threadOf eventBase] } ∧ r = some eventBase) ∨
      m' = m ∧ r = none := by
  cases h with
  | @ends _ _ _ _ throws h =>
    cases throws with
    | true =>
      obtain ⟨rfl, hr⟩ := Prod.mk.inj h
      exact .inr ⟨rfl, (Sum.inr.inj hr).symm⟩
    | false => cases (Prod.mk.inj h).2
  | @goesOn _ _ _ _ _ _ throws h hrest =>
    cases throws with
    | true => cases (Prod.mk.inj h).2
    | false =>
      obtain ⟨rfl, hp⟩ := Prod.mk.inj h
      rw [← Sum.inl.inj hp] at hrest
      exact .inl (of_pushBack hrest)

theorem of_emplace (hnone : m.lookup id = none)
    (h : Runs getEventBaseById m (.emplace id eventBase) m' r) :
    Runs getEventBaseById { m with eventBaseList := m.eventBaseList ++ [(id, eventBase)] }
      (.thread eventBase) m' r := by
  cases h with
  | ends h =>
    simp only [getEventBaseById, hnone] at h
    cases (Prod.mk.inj h).2
  | goesOn h hrest =>
    simp only [getEventBaseById, hnone] at h
    obtain ⟨rfl, hp⟩ := Prod.mk.inj h
    rwa [← Sum.inl.inj hp] at hrest

/-- The event base that is made for an id. -/
def newBase (m : EventBaseManager) (id : EventBaseManagerId) : EventBaseObject :=
  ⟨m.made, classOf id, id.1⟩

/-- The id has got its event base. -/
def added (m : EventBaseManager) (id : EventBaseManagerId) : EventBaseManager :=
  { m with made := m.made + 1, eventBaseList := m.eventBaseList ++ [(id, m.newBase id)] }

/-- A thread has started, and it is kept. -/
def withThread (m : EventBaseManager) (eventBase : EventBaseObject) : EventBaseManager :=
  { m with
    started := m.started ++ [threadOf eventBase]
    eventBaseThreads := m.eventBaseThreads ++ [threadOf eventBase] }

@[simp] theorem withThread_eventBaseList (m : EventBaseManager) (eventBase : EventBaseObject) :
    (m.withThread eventBase).eventBaseList = m.eventBaseList := rfl

@[simp] theorem withThread_made (m : EventBaseManager) (eventBase : EventBaseObject) :
    (m.withThread eventBase).made = m.made := rfl

/-- What a whole body does to an id that has no event base. -/
def Makes (m : EventBaseManager) (id : EventBaseManagerId) (m' : EventBaseManager)
    (r : Option EventBaseObject) : Prop :=
  (m' = (m.added id).withThread (m.newBase id) ∧ r = some (m.newBase id)) ∨
    m' = m.added id ∧ r = none

theorem of_makeShared (hnone : m.lookup id = none)
    (h : Runs getEventBaseById m (.makeShared id) m' r) : m.Makes id m' r := by
  cases h with
  | ends h => cases (Prod.mk.inj h).2
  | goesOn h hrest =>
    obtain ⟨rfl, hp⟩ := Prod.mk.inj h
    rw [← Sum.inl.inj hp] at hrest
    have hnone' : lookup { m with made := m.made + 1 } id = none := hnone
    exact of_thread (of_emplace hnone' hrest)

/-- **A whole body**: the id has an event base, or it gets one. -/
theorem of_find (h : Runs getEventBaseById m (.find id) m' r) :
    (m' = m ∧ r = m.lookup id ∧ (m.lookup id).isSome = true) ∨
      m.lookup id = none ∧ m.Makes id m' r := by
  cases hlookup : m.lookup id with
  | some o =>
    cases h with
    | ends h =>
      simp only [getEventBaseById, hlookup] at h
      obtain ⟨rfl, hr⟩ := Prod.mk.inj h
      exact .inl ⟨rfl, (Sum.inr.inj hr).symm, rfl⟩
    | goesOn h hrest =>
      simp only [getEventBaseById, hlookup] at h
      cases (Prod.mk.inj h).2
  | none =>
    cases h with
    | ends h =>
      simp only [getEventBaseById, hlookup] at h
      cases (Prod.mk.inj h).2
    | goesOn h hrest =>
      simp only [getEventBaseById, hlookup] at h
      obtain ⟨rfl, hp⟩ := Prod.mk.inj h
      rw [← Sum.inl.inj hp] at hrest
      exact .inr ⟨rfl, of_makeShared hlookup hrest⟩

/-! ## What whole bodies keep -/

/-- A call that is through. -/
abbrev Through := Entry EventBaseManagerId EventBaseManager (Option EventBaseObject)

/-- The ids for which a call has thrown. -/
def thrown (past : List Through) : List EventBaseManagerId :=
  (past.filter fun e => e.result = none).map Entry.argument

/-- The threads that should run: one for each event base, unless the call that made it threw. -/
def threads (m : EventBaseManager) (past : List Through) : List EventBaseThread :=
  (m.eventBaseList.filter fun entry => entry.1 ∉ thrown past).map fun entry => threadOf entry.2

/-- The state between two bodies, told from the calls that are through. -/
structure History (m : EventBaseManager) (past : List Through) : Prop where
  keys : (m.eventBaseList.map Prod.fst).Nodup
  addresses : (m.eventBaseList.map fun entry => entry.2.address).Nodup
  made : ∀ entry ∈ m.eventBaseList, entry.2.madeAs = classOf entry.1 ∧
    entry.2.eventBaseId = entry.1.1 ∧ entry.2.address < m.made
  given : ∀ e ∈ past, ∀ o, e.result = some o → (e.argument, o) ∈ m.eventBaseList
  threw : ∀ id ∈ thrown past, id ∈ m.eventBaseList.map Prod.fst
  started : m.started = m.threads past
  kept : m.eventBaseThreads = m.started

variable {past : List Through} {o : EventBaseObject}

theorem mem_of_lookup (h : m.lookup id = some o) : (id, o) ∈ m.eventBaseList := by
  obtain ⟨entry, hfind, rfl⟩ := Option.map_eq_some_iff.mp h
  have hid := List.find?_some hfind
  rw [decide_eq_true_iff] at hid
  exact hid ▸ List.mem_of_find?_eq_some hfind

theorem lookup_eq_none : m.lookup id = none ↔ id ∉ m.eventBaseList.map Prod.fst := by
  simp only [lookup, Option.map_eq_none_iff, List.find?_eq_none, decide_eq_true_eq, List.mem_map,
    Prod.exists, Prod.forall, exists_and_right, exists_eq_right, not_exists]
  constructor
  · intro h o ho
    exact h id o ho rfl
  · rintro h id' o ho rfl
    exact h o ho

theorem thrown_append (past : List Through) (e : Through) :
    thrown (past ++ [e]) = thrown past ++ if e.result = none then [e.argument] else [] := by
  rw [thrown, List.filter_append, List.map_append]
  by_cases h : e.result = none <;> simp [h, thrown]

theorem history_init : History {} [] where
  keys := List.nodup_nil
  addresses := List.nodup_nil
  made _ h := absurd h List.not_mem_nil
  given _ h := absurd h List.not_mem_nil
  threw _ h := absurd h List.not_mem_nil
  started := rfl
  kept := rfl

/-- A call finds the event base of its id. -/
theorem History.found (h : History m past) {e : Through} (hshared : e.shared = m)
    (hresult : e.result = m.lookup e.argument) (hsome : (m.lookup e.argument).isSome = true) :
    History e.shared (past ++ [e]) := by
  subst hshared
  have hne : e.result ≠ none := by rw [hresult]; exact Option.isSome_iff_ne_none.mp hsome
  have hthrown : thrown (past ++ [e]) = thrown past := by simp [thrown_append, hne]
  refine ⟨h.keys, h.addresses, h.made, ?_, ?_, ?_, h.kept⟩
  · simp only [List.mem_append, List.mem_singleton]
    rintro e' (he' | rfl) o ho
    · exact h.given e' he' o ho
    · exact mem_of_lookup (hresult ▸ ho)
  · rw [hthrown]
    exact h.threw
  · rw [threads, hthrown]
    exact h.started

/-- The list has the new event base. -/
theorem History.addresses_added (h : History m past) (id : EventBaseManagerId) :
    ((m.added id).eventBaseList.map fun entry => entry.2.address).Nodup := by
  rw [added, List.map_append]
  refine h.addresses.append (List.nodup_singleton _) ?_
  simp only [List.map_cons, List.map_nil, List.disjoint_singleton, List.mem_map, not_exists,
    not_and]
  intro entry hentry
  exact Nat.ne_of_lt (h.made entry hentry).2.2

theorem History.made_added (h : History m past) (id : EventBaseManagerId) :
    ∀ entry ∈ (m.added id).eventBaseList, entry.2.madeAs = classOf entry.1 ∧
      entry.2.eventBaseId = entry.1.1 ∧ entry.2.address < (m.added id).made := by
  simp only [added, List.mem_append, List.mem_singleton]
  rintro entry (hentry | rfl)
  · obtain ⟨hclass, hid, hlt⟩ := h.made entry hentry
    exact ⟨hclass, hid, Nat.lt_succ_of_lt hlt⟩
  · exact ⟨rfl, rfl, Nat.lt_succ_self _⟩

theorem keys_added (hkeys : (m.eventBaseList.map Prod.fst).Nodup) (hnone : m.lookup id = none) :
    ((m.added id).eventBaseList.map Prod.fst).Nodup := by
  rw [added, List.map_append]
  exact hkeys.append (List.nodup_singleton _)
    (List.disjoint_singleton.mpr (lookup_eq_none.mp hnone))

/-- What a call that has thrown leaves out is the thread of its own event base. -/
theorem History.threads_added (h : History m past) (hnone : m.lookup id = none) {e : Through}
    (he : e.argument = id) :
    (m.added id).threads (past ++ [e]) =
      m.threads past ++ if e.result = none then [] else [threadOf (m.newBase id)] := by
  have hnew : id ∉ thrown past := fun hid => lookup_eq_none.mp hnone (h.threw id hid)
  have hold : ∀ entry ∈ m.eventBaseList,
      (entry.1 ∉ thrown (past ++ [e]) ↔ entry.1 ∉ thrown past) := by
    intro entry hentry
    have hne : entry.1 ≠ id := by
      rintro rfl
      exact lookup_eq_none.mp hnone (List.mem_map_of_mem hentry)
    rw [thrown_append, he]
    split <;> simp [hne]
  rw [threads, threads, added, List.filter_append, List.map_append,
    List.filter_congr fun entry hentry => decide_eq_decide.mpr (hold entry hentry)]
  congr 1
  by_cases hresult : e.result = none <;> simp [thrown_append, hresult, he, hnew]

/-- The id has got an event base; its thread has started unless the call has thrown. -/
theorem History.makes (h : History m past) (hnone : m.lookup id = none) {e : Through}
    (he : e.argument = id) (hmakes : m.Makes id e.shared e.result) :
    History e.shared (past ++ [e]) := by
  have hlist : e.shared.eventBaseList = (m.added id).eventBaseList := by
    obtain ⟨hm, -⟩ | ⟨hm, -⟩ := hmakes <;> simp [hm]
  have hmade : e.shared.made = (m.added id).made := by
    obtain ⟨hm, -⟩ | ⟨hm, -⟩ := hmakes <;> simp [hm]
  have hthreads := h.threads_added hnone he
  have hsub : ∀ entry ∈ m.eventBaseList, entry ∈ (m.added id).eventBaseList :=
    fun entry hentry => List.mem_append_left _ hentry
  have hnew : (id, m.newBase id) ∈ (m.added id).eventBaseList :=
    List.mem_append_right _ (List.mem_singleton_self _)
  refine ⟨?_, ?_, ?_, ?_, ?_, ?_, ?_⟩
  · rw [hlist]
    exact keys_added h.keys hnone
  · rw [hlist]
    exact h.addresses_added id
  · rw [hlist, hmade]
    exact h.made_added id
  · rw [hlist]
    simp only [List.mem_append, List.mem_singleton]
    rintro e' (he' | rfl) o ho
    · exact hsub _ (h.given e' he' o ho)
    · obtain ⟨-, hr⟩ | ⟨-, hr⟩ := hmakes
      · rw [he, Option.some.inj (ho.symm.trans hr)]
        exact hnew
      · cases ho.symm.trans hr
  · rw [hlist, thrown_append, he]
    intro id' hid'
    obtain hid' | hid' := List.mem_append.mp hid'
    · obtain ⟨entry, hentry, rfl⟩ := List.mem_map.mp (h.threw id' hid')
      exact List.mem_map_of_mem (hsub _ hentry)
    · split at hid'
      · rw [List.mem_singleton.mp hid']
        exact List.mem_map_of_mem hnew
      · cases hid'
  · rw [show e.shared.threads (past ++ [e]) = (m.added id).threads (past ++ [e]) by
      rw [threads, threads, hlist], hthreads]
    obtain ⟨hm, hr⟩ | ⟨hm, hr⟩ := hmakes <;> simp [hm, hr, withThread, added, h.started]
  · obtain ⟨hm, -⟩ | ⟨hm, -⟩ := hmakes <;> simp [hm, withThread, added, h.kept]

theorem History.whole (h : History m past) {e : Through} (he : Whole getEventBaseById m e) :
    History e.shared (past ++ [e]) := by
  obtain ⟨hm, hr, hsome⟩ | ⟨hnone, hmakes⟩ := of_find he
  · exact h.found hm hr hsome
  · exact h.makes hnone rfl hmakes

/-! ## Every run -/

/-- A point is at most so many steps before the end. -/
def Point.rank : Point → ℕ
  | .find _ => 4
  | .makeShared _ => 3
  | .emplace _ _ => 2
  | .thread _ => 1
  | .pushBack _ _ => 0

theorem rank_lt (m : EventBaseManager) (p : Point) (throws : Bool) (m' : EventBaseManager)
    (p' : Point) (h : getEventBaseById.step m p throws = (m', .inl p')) : p'.rank < p.rank := by
  cases p with
  | find id =>
    simp only [getEventBaseById] at h
    split at h
    · cases (Prod.mk.inj h).2
    · obtain rfl := Sum.inl.inj (Prod.mk.inj h).2
      exact Nat.lt_succ_self _
  | makeShared id =>
    obtain rfl := Sum.inl.inj (Prod.mk.inj h).2
    exact Nat.lt_succ_self _
  | emplace id o =>
    simp only [getEventBaseById] at h
    split at h <;> (obtain rfl := Sum.inl.inj (Prod.mk.inj h).2; exact Nat.lt_succ_self _)
  | thread o =>
    cases throws with
    | true => cases (Prod.mk.inj h).2
    | false =>
      obtain rfl := Sum.inl.inj (Prod.mk.inj h).2
      exact Nat.lt_succ_self _
  | pushBack o t => cases (Prod.mk.inj h).2

/-- A thread that has started goes on. -/
theorem started_prefix_of_step (m : EventBaseManager) (p : Point) (throws : Bool) :
    m.started <+: (getEventBaseById.step m p throws).1.started := by
  cases p with
  | find id =>
    simp only [getEventBaseById]
    split <;> exact List.prefix_rfl
  | makeShared id => exact List.prefix_rfl
  | emplace id o =>
    simp only [getEventBaseById]
    split <;> exact List.prefix_rfl
  | thread o =>
    cases throws with
    | true => exact List.prefix_rfl
    | false => exact List.prefix_append _ _
  | pushBack o t => exact List.prefix_rfl

theorem started_prefix_of_runs {p : Point} (h : Runs getEventBaseById m p m' r) :
    m.started <+: m'.started := by
  induction h with
  | @ends m m' p r throws h =>
    have := started_prefix_of_step m p throws
    rwa [h] at this
  | @goesOn m m' t p p' r throws h _ ih =>
    have := started_prefix_of_step m p throws
    rw [h] at this
    exact this.trans ih

/-- The threads of a history are those of different event bases. -/
theorem History.threads_nodup (h : History m past) :
    (m.started.map fun thread => thread.loops.address).Nodup := by
  rw [h.started, threads, List.map_map]
  exact h.addresses.sublist (List.filter_sublist.map _)

theorem History.of_mem_started (h : History m past) (ht : thread ∈ m.started) :
    ∃ entry ∈ m.eventBaseList, thread = threadOf entry.2 := by
  rw [h.started, threads] at ht
  obtain ⟨entry, hentry, rfl⟩ := List.mem_map.mp ht
  exact ⟨entry, List.mem_of_mem_filter hentry, rfl⟩

/-- What a call that is through has brought. -/
theorem History.mem_started_iff (h : History m past) (ho : (id, o) ∈ m.eventBaseList) :
    threadOf o ∈ m.started ↔ id ∉ thrown past := by
  rw [h.started, threads, List.mem_map]
  constructor
  · rintro ⟨entry, hentry, heq⟩
    obtain ⟨hmem, hnot⟩ := List.mem_filter.mp hentry
    have ho' : entry.2 = o := congrArg EventBaseThread.loops heq
    have haddress := List.inj_on_of_nodup_map h.addresses hmem ho (by rw [ho'])
    rw [haddress, decide_eq_true_iff] at hnot
    exact hnot
  · intro hnot
    exact ⟨(id, o), List.mem_filter.mpr ⟨ho, decide_eq_true hnot⟩, rfl⟩

/-- The manager after a run of any threads. -/
abbrev after (es : List (Event EventBaseManagerId Bool)) :
    Threads EventBaseManagerId EventBaseManager Point (Option EventBaseObject) :=
  exec (next (Threads.step getEventBaseById)) (init {}) es

/-- The `k`-th call asked for the id and is through with the result. -/
def Gives (es : List (Event EventBaseManagerId Bool)) (k : ℕ) (id : EventBaseManagerId)
    (r : Option EventBaseObject) : Prop :=
  ∃ phase, (after es).At k id phase ∧ phase.result = some r

theorem history_of_run (es : List (Event EventBaseManagerId Bool)) :
    History (exec see {} (trace (Threads.step getEventBaseById) (init {}) es))
      (trace (Threads.step getEventBaseById) (init {}) es) :=
  history_of_whole history_init (fun _ _ _ h he => h.whole he)
    (whole_of_run ({} : EventBaseManager) es)

theorem Gives.exists_entry {es : List (Event EventBaseManagerId Bool)} {k : ℕ}
    (h : Gives es k id r) :
    ∃ e ∈ trace (Threads.step getEventBaseById) (init {}) es, e.argument = id ∧ e.result = r := by
  obtain ⟨e, he, -, hid, hr⟩ := (result_iff_of_run ({} : EventBaseManager) es).mp h
  exact ⟨e, he, hid, hr⟩

/-- The event base that a call gives is the one that the id has. -/
theorem Gives.mem {es : List (Event EventBaseManagerId Bool)} {k : ℕ}
    (h : Gives es k id (some o)) :
    (id, o) ∈ (exec see {} (trace (Threads.step getEventBaseById) (init {}) es)).eventBaseList := by
  obtain ⟨e, he, rfl, hr⟩ := h.exists_entry
  exact (history_of_run es).given e he o hr

theorem mem_thrown_iff {es : List (Event EventBaseManagerId Bool)} :
    id ∈ thrown (trace (Threads.step getEventBaseById) (init {}) es) ↔
      ∃ k, Gives es k id none := by
  simp only [thrown, List.mem_map, List.mem_filter, decide_eq_true_iff]
  constructor
  · rintro ⟨e, ⟨he, hr⟩, rfl⟩
    exact ⟨e.call, (result_iff_of_run ({} : EventBaseManager) es).mpr ⟨e, he, rfl, rfl, hr⟩⟩
  · rintro ⟨k, h⟩
    obtain ⟨e, he, hid, hr⟩ := h.exists_entry
    exact ⟨e, ⟨he, hr⟩, hid⟩

/-- **No event base is in two loops**, at every moment of every run, and each loop runs under its own
id. -/
theorem started_nodup_of_run (es : List (Event EventBaseManagerId Bool)) :
    ((after es).shared.started.map fun thread => thread.loops.address).Nodup ∧
      ∀ thread ∈ (after es).shared.started, thread = threadOf thread.loops := by
  have h := history_of_run es
  obtain ⟨m, past, hm, hstarted⟩ : ∃ m past, History m past ∧
      (after es).shared.started <+: m.started := by
    obtain heq | ⟨e, p, hwhole, hruns⟩ := ahead_of_run rank_lt false ({} : EventBaseManager) es
    · exact ⟨_, _, h, heq ▸ List.prefix_rfl⟩
    · exact ⟨_, _, h.whole hwhole, started_prefix_of_runs hruns⟩
  refine ⟨hm.threads_nodup.sublist (hstarted.sublist.map _), fun thread ht => ?_⟩
  obtain ⟨entry, -, rfl⟩ := hm.of_mem_started (hstarted.subset ht)
  rfl

/-- **Each id has one event base, whoever asks for it and in whatever order.**  An event base that a
call gives is the id's own, of the class that the id's name asks for; another call gives the same
one exactly when it asks for the same id.  No event base is in two loops, and each loop runs under
its own id; when no call is under way it runs unless the call that made it has thrown. -/
theorem one_base_of_run (es : List (Event EventBaseManagerId Bool)) {k : ℕ}
    (h : Gives es k id (some o)) :
    (o.eventBaseId = id.1 ∧ (o.madeAs = .epollBase ↔ StartsWithEpoll id.1)) ∧
    (∀ k' id' o', Gives es k' id' (some o') → (o.address = o'.address ↔ id = id')) ∧
    (((after es).shared.started.map fun thread => thread.loops.address).Nodup ∧
      ∀ thread ∈ (after es).shared.started, thread = threadOf thread.loops) ∧
    ((after es).flag = false →
      (threadOf o ∈ (after es).shared.started ↔ ∀ k', ¬ Gives es k' id none)) := by
  have hhistory := history_of_run es
  have hmem := h.mem
  obtain ⟨hclass, hid, -⟩ := hhistory.made _ hmem
  refine ⟨⟨hid, ?_⟩, ?_, started_nodup_of_run es, ?_⟩
  · rw [hclass, classOf]
    split <;> simp [*]
  · intro k' id' o' h'
    have hmem' := h'.mem
    constructor
    · intro haddress
      exact congrArg Prod.fst (List.inj_on_of_nodup_map hhistory.addresses hmem hmem' haddress)
    · rintro rfl
      exact congrArg (fun entry => entry.2.address)
        (List.inj_on_of_nodup_map hhistory.keys hmem hmem' rfl)
  · intro hfree
    rw [shared_of_run _ es hfree, hhistory.mem_started_iff hmem, mem_thrown_iff, not_exists]

/-- Two threads ask for `EPOLL_GATEWAY` and one for `ORDER`; two of them wait for the first. -/
def threeCalls : List (Event EventBaseManagerId Bool) :=
  [.call ⟨.epollGateway, by decide⟩, .call ⟨.epollGateway, by decide⟩, .call ⟨.order, by decide⟩] ++
    [0, 1, 0, 2, 0, 0, 1, 0, 2, 0, 0, 1, 2, 1, 2, 1, 2, 2, 2, 2, 2, 2, 2].map (.step · false)

theorem threeCalls_one_base :
    let gateway : EventBaseObject := ⟨0, .epollBase, .epollGateway⟩
    let order : EventBaseObject := ⟨1, .eventBase, .order⟩
    Gives threeCalls 1 ⟨.epollGateway, by decide⟩ (some gateway) ∧
      Gives threeCalls 2 ⟨.order, by decide⟩ (some order) ∧
      (gateway.address = order.address ↔ EventBaseId.epollGateway = .order) := by
  intro gateway order
  have hgateway : Gives threeCalls 1 ⟨.epollGateway, by decide⟩ (some gateway) :=
    ⟨.returned _, by decide, rfl⟩
  have horder : Gives threeCalls 2 ⟨.order, by decide⟩ (some order) :=
    ⟨.returned _, by decide, rfl⟩
  obtain ⟨-, hother, -⟩ := one_base_of_run threeCalls hgateway
  exact ⟨hgateway, horder, (hother 2 _ order horder).trans Subtype.mk_eq_mk⟩

/-- **No caller waits for ever**: from wherever a run has led, and whether or not the threads can be
made, all calls can return, and the lock is free then. -/
theorem all_return_of_run (es : List (Event EventBaseManagerId Bool)) (throws : Bool) :
    ∃ ks : List ℕ, (after (es ++ ks.map (.step · throws))).flag = false ∧
      ∀ call ∈ (after (es ++ ks.map (.step · throws))).calls, ∃ r, call.phase = .returned r := by
  obtain ⟨ks, hfree, hks⟩ := returns_of_run rank_lt throws ({} : EventBaseManager) es
  refine ⟨ks, hfree, fun call hcall => ?_⟩
  obtain ⟨k, hk⟩ := List.mem_iff_getElem?.mp hcall
  exact hks k call.argument call.phase hk

end EventBaseManager

end TradingEngine
