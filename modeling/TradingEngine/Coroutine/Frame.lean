import TradingEngine.Coroutine.EpollWakeUp

/-!
# Coroutine/Frame — the life of a coroutine frame

A frame is referred to by wrappers, by `FutureValue`s and children that are to complete it, by
events in the queue of its event base, and by the base while that handles one of them.  `Frame`
counts these beside the promise, `Frame.Step` is what can happen to one frame, and `Frame.Ok`
relates the flags of the promise to what still refers to the frame.
-/

namespace TradingEngine

namespace Coroutine

/-- Where a coroutine stands. -/
inductive Point
  | initial
  | running
  | suspended
  | done
  deriving DecidableEq, Repr

/-- `BasePromiseType` with its frame; `destroyed` counts the calls of `handle.destroy()`. -/
structure Promise where
  suspendingPromise : Option ℕ
  eventBase : Option ℕ
  hasSuspendValue : Bool
  hasAwaiter : Bool
  forceDestroy : Bool
  point : Point
  destroyed : ℕ
  deriving DecidableEq, Repr

/-- What an event base does with a promise in `check_handle`: `handle.resume()`, or what comes after
it. -/
inductive Activity
  | running
  | checking (isForceDestroy : Bool)
  deriving DecidableEq, Repr

/-- A promise that was just made. -/
def Promise.fresh : Promise := ⟨none, none, false, true, false, .initial, 0⟩

/-- A frame and what refers to it: wrappers, `FutureValue`s and unfinished children, its events in
order, and what its event base does with it. -/
structure Frame where
  promise : Promise
  tasks : ℕ
  waiting : ℕ
  events : List TaskType
  activity : Option Activity

namespace Frame

/-- A frame that is not allocated. -/
def unborn : Frame := ⟨.fresh, 0, 0, [], none⟩

/-- A new frame in its wrapper. -/
def fresh : Frame := { unborn with tasks := 1 }

/-- The completions that are still to be handled. -/
def pending (f : Frame) : ℕ := f.waiting + f.events.count .setSuspendValue

/-- The last `if` of `check_handle` destroys the frame. -/
def Destroys (promise : Promise) (isForceDestroy : Bool) : Prop :=
  (isForceDestroy = true ∨ promise.hasAwaiter = false) ∧ promise.hasSuspendValue = false

instance (promise : Promise) (isForceDestroy : Bool) :
    Decidable (Destroys promise isForceDestroy) :=
  inferInstanceAs (Decidable (_ ∧ _))

/-- The kinds of what can happen to a frame: those that a `destroy()` before them looks at, and the
others. -/
inductive Kind
  | destroy
  | suspend (completions : ℕ)
  | coReturn
  | other

/-- **What can happen to a frame.** -/
inductive Step : Kind → Frame → Frame → Prop
  | start {f : Frame} (base : ℕ) (parent : Option ℕ) (hbase : f.promise.eventBase = none)
      (htasks : f.tasks ≠ 0) :
    Step .other f { f with
      promise := { f.promise with suspendingPromise := parent, eventBase := some base }
      events := [.run] }
  | drop {f : Frame} {n : ℕ} (hbase : f.promise.eventBase = none) (htasks : f.tasks = n + 1) :
    Step .other f { f with
      promise := { f.promise with destroyed := f.promise.destroyed + 1 }
      tasks := n }
  | release {f : Frame} {n : ℕ} (hbase : f.promise.eventBase ≠ none) (htasks : f.tasks = n + 1) :
    Step .other f { f with tasks := n, events := f.events ++ [.removeAwaiter] }
  | destroy {f : Frame} {n : ℕ} (hbase : f.promise.eventBase ≠ none) (htasks : f.tasks = n + 1) :
    Step .destroy f { f with promise := { f.promise with forceDestroy := true }, tasks := n }
  | run {f : Frame} {rest : List TaskType} (hevents : f.events = .run :: rest)
      (hidle : f.activity = none) :
    Step .other f { f with
      promise := { f.promise with point := .running }
      events := rest
      activity := some .running }
  | resume {f : Frame} {rest : List TaskType} (hevents : f.events = .setSuspendValue :: rest)
      (hidle : f.activity = none) (hforce : f.promise.forceDestroy = false) :
    Step .other f { f with
      promise := { f.promise with hasSuspendValue := false, point := .running }
      events := rest
      activity := some .running }
  | reclaim {f : Frame} {rest : List TaskType} (hevents : f.events = .setSuspendValue :: rest)
      (hidle : f.activity = none) (hforce : f.promise.forceDestroy = true) :
    Step .other f { f with
      promise := { f.promise with hasSuspendValue := false }
      events := rest
      activity := some (.checking true) }
  | removeAwaiter {f : Frame} {rest : List TaskType} (hevents : f.events = .removeAwaiter :: rest)
      (hidle : f.activity = none) :
    Step .other f { f with
      promise := { f.promise with hasAwaiter := false }
      events := rest
      activity := some (.checking false) }
  | forceDestroy {f : Frame} {rest : List TaskType} (hevents : f.events = .forceDestroy :: rest)
      (hidle : f.activity = none) :
    Step .other f { f with
      promise := { f.promise with forceDestroy := true }
      events := rest
      activity := some (.checking true) }
  | suspend {f : Frame} {n : ℕ} (hrunning : f.activity = some .running) (hn : n ≤ 1) :
    Step (.suspend n) f { f with
      promise := { f.promise with hasSuspendValue := true, point := .suspended }
      waiting := f.waiting + n
      activity := some (.checking false) }
  | complete {f : Frame} {n : ℕ} (hwaiting : f.waiting = n + 1) :
    Step .other f { f with waiting := n, events := f.events ++ [.setSuspendValue] }
  | coReturn {f : Frame} (hrunning : f.activity = some .running) :
    Step .coReturn f { f with
      promise := { f.promise with point := .done }
      activity := some (.checking false) }
  | checked {f : Frame} {isForceDestroy : Bool}
      (hchecking : f.activity = some (.checking isForceDestroy)) :
    Step .other f { f with
      promise := if Destroys f.promise isForceDestroy then
        { f.promise with destroyed := f.promise.destroyed + 1 } else f.promise
      activity := none }

/-- The flags of the promise, and where the coroutine stands. -/
def Stands (f : Frame) : Prop :=
  match f.promise.point with
  | .initial => f.promise.hasSuspendValue = false ∧ f.activity = none ∧
    (f.promise.eventBase = none ∧ f.tasks = 1 ∧ f.events = [] ∨
      f.promise.eventBase ≠ none ∧ ∃ rest, f.events = .run :: rest ∧ .run ∉ rest)
  | .running => f.promise.hasSuspendValue = false ∧ f.activity = some .running ∧
    f.promise.eventBase ≠ none ∧ .run ∉ f.events
  | .suspended => f.promise.eventBase ≠ none ∧ .run ∉ f.events ∧
    (f.promise.hasSuspendValue = true ∧
        (f.activity = none ∨ f.activity = some (.checking false)) ∨
      f.promise.hasSuspendValue = false ∧ f.promise.forceDestroy = true ∧
        f.activity = some (.checking true))
  | .done => f.promise.hasSuspendValue = false ∧ f.promise.eventBase ≠ none ∧ .run ∉ f.events ∧
    (f.activity = none ∧ f.promise.hasAwaiter = true ∨ f.activity = some (.checking false))

/-- **The invariant of a frame that is not destroyed.**  While the promise has an awaiter, this is
one wrapper, one `REMOVE_AWAITER` or the force flag; while it has a suspend value, at most one
completion is to come. -/
structure Alive (f : Frame) : Prop where
  destroyed : f.promise.destroyed = 0
  awaiter : f.tasks + f.events.count .removeAwaiter + f.promise.forceDestroy.toNat =
    f.promise.hasAwaiter.toNat
  pending : f.pending ≤ f.promise.hasSuspendValue.toNat
  force : .forceDestroy ∉ f.events
  stands : f.Stands

/-- Nothing refers to a frame that is destroyed. -/
structure Gone (f : Frame) : Prop where
  destroyed : f.promise.destroyed = 1
  tasks : f.tasks = 0
  waiting : f.waiting = 0
  events : f.events = []
  activity : f.activity = none

/-- **The invariant of a frame.** -/
def Ok (f : Frame) : Prop := f.Alive ∨ f.Gone

/-! ## Where a frame stands -/

section Stands

variable {f f' : Frame} {n : ℕ} {rest : List TaskType} {isForceDestroy : Bool}

/-- **A completion that is to come finds the coroutine suspended.** -/
theorem Alive.suspended_of_pending (h : f.Alive) (hpending : f.pending ≠ 0) :
    f.promise.hasSuspendValue = true ∧ f.promise.point = .suspended ∧
      f.promise.eventBase ≠ none ∧ .run ∉ f.events ∧
      (f.activity = none ∨ f.activity = some (.checking false)) := by
  have hvalue : f.promise.hasSuspendValue = true := by
    cases hvalue : f.promise.hasSuspendValue with
    | true => rfl
    | false =>
      have hle := h.pending
      rw [hvalue, Bool.toNat_false] at hle
      omega
  have hstands := h.stands
  rw [Stands] at hstands
  split at hstands <;> simp_all

/-- **A `RUN` finds it where it starts.** -/
theorem Alive.initial_of_run (h : f.Alive) (hevents : f.events = .run :: rest) :
    f.promise.point = .initial ∧ f.promise.hasSuspendValue = false ∧
      f.promise.eventBase ≠ none ∧ .run ∉ rest := by
  have hstands := h.stands
  rw [Stands] at hstands
  split at hstands <;> simp_all

/-- **A `REMOVE_AWAITER` finds it suspended, or done.** -/
theorem Alive.stands_of_removeAwaiter (h : f.Alive) (hevents : f.events = .removeAwaiter :: rest)
    (hidle : f.activity = none) :
    f.promise.eventBase ≠ none ∧ .run ∉ rest ∧ f.promise.hasAwaiter = true ∧
      (f.promise.point = .suspended ∧ f.promise.hasSuspendValue = true ∨
        f.promise.point = .done ∧ f.promise.hasSuspendValue = false) := by
  have hawaiter := h.awaiter
  have hstands := h.stands
  rw [hevents, List.count_cons_self] at hawaiter
  rw [Stands] at hstands
  split at hstands <;> cases hvalue : f.promise.hasAwaiter <;> simp_all

theorem Alive.running_of_activity (h : f.Alive) (hrunning : f.activity = some .running) :
    f.promise.point = .running ∧ f.promise.hasSuspendValue = false ∧
      f.promise.eventBase ≠ none ∧ .run ∉ f.events := by
  have hstands := h.stands
  rw [Stands] at hstands
  split at hstands <;> simp_all

/-- **What is checked is suspended, or done.** -/
theorem Alive.stands_of_checking (h : f.Alive)
    (hchecking : f.activity = some (.checking isForceDestroy)) :
    f.promise.eventBase ≠ none ∧ .run ∉ f.events ∧
      (f.promise.point = .suspended ∧ f.promise.hasSuspendValue = true ∧ isForceDestroy = false ∨
        f.promise.point = .suspended ∧ f.promise.hasSuspendValue = false ∧
          f.promise.forceDestroy = true ∧ isForceDestroy = true ∨
        f.promise.point = .done ∧ f.promise.hasSuspendValue = false ∧ isForceDestroy = false) := by
  have hstands := h.stands
  rw [Stands] at hstands
  split at hstands <;> simp_all

/-! ## What can happen keeps the invariant -/

theorem alive_fresh : fresh.Alive :=
  ⟨rfl, rfl, Nat.le_refl _, List.not_mem_nil, ⟨rfl, rfl, .inl ⟨rfl, rfl, rfl⟩⟩⟩

theorem Alive.fresh_of_base (h : f.Alive) (hbase : f.promise.eventBase = none) :
    f.promise.point = .initial ∧ f.promise.hasSuspendValue = false ∧ f.activity = none ∧
      f.tasks = 1 ∧ f.events = [] := by
  have hstands := h.stands
  rw [Stands] at hstands
  split at hstands <;> simp_all

theorem Alive.start (h : f.Alive) (hbase : f.promise.eventBase = none) (base : ℕ)
    (parent : Option ℕ) :
    Alive { f with
      promise := { f.promise with suspendingPromise := parent, eventBase := some base }
      events := [.run] } := by
  obtain ⟨hpoint, hvalue, hidle, htasks, hevents⟩ := h.fresh_of_base hbase
  have hawaiter := h.awaiter
  have hpending := h.pending
  rw [hevents] at hawaiter
  rw [Frame.pending, hevents] at hpending
  refine ⟨h.destroyed, hawaiter, hpending, by simp, ?_⟩
  rw [Stands, hpoint]
  exact ⟨hvalue, hidle, .inr ⟨Option.some_ne_none _, [], rfl, List.not_mem_nil⟩⟩

theorem Alive.gone_of_drop (h : f.Alive) (hbase : f.promise.eventBase = none)
    (htasks : f.tasks = n + 1) :
    Gone { f with
      promise := { f.promise with destroyed := f.promise.destroyed + 1 }
      tasks := n } := by
  obtain ⟨-, hvalue, hidle, hone, hevents⟩ := h.fresh_of_base hbase
  have hpending := h.pending
  rw [Frame.pending, hvalue, Bool.toNat_false] at hpending
  refine ⟨?_, ?_, ?_, hevents, hidle⟩
  · exact congrArg (· + 1) h.destroyed
  · change n = 0
    omega
  · change f.waiting = 0
    omega

/-- The coroutine stands where it stood when an event is posted that is not `RUN`. -/
theorem Stands.post (h : f.Stands) (hbase : f.promise.eventBase ≠ none) {type : TaskType}
    (htype : type ≠ .run) (tasks waiting : ℕ) :
    Stands { f with tasks := tasks, waiting := waiting, events := f.events ++ [type] } := by
  rw [Stands] at h ⊢
  dsimp only
  split at h
  case h_1 =>
    obtain ⟨hvalue, hidle, ⟨hnone, -⟩ | ⟨hsome, rest, hevents, hrest⟩⟩ := h
    · exact absurd hnone hbase
    · refine ⟨hvalue, hidle, .inr ⟨hsome, rest ++ [type], by rw [hevents]; rfl, ?_⟩⟩
      simp [hrest, htype.symm]
  all_goals simp_all [htype.symm]

theorem Alive.release (h : f.Alive) (hbase : f.promise.eventBase ≠ none)
    (htasks : f.tasks = n + 1) :
    Alive { f with tasks := n, events := f.events ++ [.removeAwaiter] } := by
  have hawaiter := h.awaiter
  have hpending := h.pending
  refine ⟨h.destroyed, ?_, ?_, by simp [h.force], h.stands.post hbase (by simp) _ _⟩
  · dsimp only
    rw [List.count_append, List.count_singleton_self]
    omega
  · rw [Frame.pending] at hpending ⊢
    simpa using hpending

theorem Alive.destroy (h : f.Alive) (hbase : f.promise.eventBase ≠ none)
    (htasks : f.tasks = n + 1) :
    Alive { f with promise := { f.promise with forceDestroy := true }, tasks := n } := by
  have hawaiter := h.awaiter
  have hforce : f.promise.forceDestroy = false := by
    cases hforce : f.promise.forceDestroy with
    | false => rfl
    | true =>
      have hle := f.promise.hasAwaiter.toNat_le
      rw [hforce, Bool.toNat_true] at hawaiter
      omega
  refine ⟨h.destroyed, ?_, h.pending, h.force, ?_⟩
  · rw [hforce, Bool.toNat_false] at hawaiter
    dsimp only
    rw [Bool.toNat_true]
    omega
  · have hstands := h.stands
    rw [Stands] at hstands ⊢
    dsimp only
    split at hstands <;> simp_all

/-- The rest of the events, without the first. -/
theorem Alive.force_rest (h : f.Alive) {type : TaskType} (hevents : f.events = type :: rest) :
    .forceDestroy ∉ rest := fun hmem => h.force (hevents ▸ List.mem_cons_of_mem _ hmem)

theorem Alive.run (h : f.Alive) (hevents : f.events = .run :: rest) :
    Alive { f with
      promise := { f.promise with point := .running }
      events := rest
      activity := some .running } := by
  obtain ⟨hpoint, hvalue, hbase, hrest⟩ := h.initial_of_run hevents
  have hawaiter := h.awaiter
  have hpending := h.pending
  rw [hevents, List.count_cons_of_ne (by simp)] at hawaiter
  rw [Frame.pending, hevents, List.count_cons_of_ne (by simp)] at hpending
  exact ⟨h.destroyed, hawaiter, hpending, h.force_rest hevents, ⟨hvalue, rfl, hbase, hrest⟩⟩

/-- **A completion is handled**: nothing else is to come. -/
theorem Alive.pending_rest (h : f.Alive) (hevents : f.events = .setSuspendValue :: rest) :
    f.waiting + rest.count .setSuspendValue = 0 := by
  have hpending := h.pending
  have hle := f.promise.hasSuspendValue.toNat_le
  rw [Frame.pending, hevents, List.count_cons_self] at hpending
  omega

theorem Alive.setSuspendValue (h : f.Alive) (hevents : f.events = .setSuspendValue :: rest)
    {point : Point} {activity : Option Activity}
    (hpoint : point = .running ∧ activity = some .running ∨
      point = .suspended ∧ f.promise.forceDestroy = true ∧ activity = some (.checking true)) :
    Alive { f with
      promise := { f.promise with hasSuspendValue := false, point := point }
      events := rest
      activity := activity } := by
  have hne : f.pending ≠ 0 := by
    rw [Frame.pending, hevents, List.count_cons_self]
    omega
  obtain ⟨hvalue, -, hbase, hrun, -⟩ := h.suspended_of_pending hne
  have hawaiter := h.awaiter
  rw [hevents, List.count_cons_of_ne (by simp)] at hawaiter
  have hrest : .run ∉ rest := fun hmem => hrun (hevents ▸ List.mem_cons_of_mem _ hmem)
  refine ⟨h.destroyed, hawaiter, Nat.le_of_eq (h.pending_rest hevents),
    h.force_rest hevents, ?_⟩
  rcases hpoint with ⟨rfl, rfl⟩ | ⟨rfl, hforce, rfl⟩
  · exact ⟨rfl, rfl, hbase, hrest⟩
  · exact ⟨hbase, hrest, .inr ⟨rfl, hforce, rfl⟩⟩

theorem Alive.removeAwaiter (h : f.Alive) (hevents : f.events = .removeAwaiter :: rest)
    (hidle : f.activity = none) :
    Alive { f with
      promise := { f.promise with hasAwaiter := false }
      events := rest
      activity := some (.checking false) } := by
  obtain ⟨hbase, hrest, hawaiting, hpoint⟩ := h.stands_of_removeAwaiter hevents hidle
  have hawaiter := h.awaiter
  have hpending := h.pending
  rw [hevents, List.count_cons_self, hawaiting, Bool.toNat_true] at hawaiter
  rw [Frame.pending, hevents, List.count_cons_of_ne (by simp)] at hpending
  refine ⟨h.destroyed, ?_, hpending, h.force_rest hevents, ?_⟩
  · dsimp only
    rw [Bool.toNat_false]
    omega
  · rw [Stands]
    rcases hpoint with ⟨hpoint, hvalue⟩ | ⟨hpoint, hvalue⟩ <;> simp_all

theorem Alive.suspend (h : f.Alive) (hrunning : f.activity = some .running) (hn : n ≤ 1) :
    Alive { f with
      promise := { f.promise with hasSuspendValue := true, point := .suspended }
      waiting := f.waiting + n
      activity := some (.checking false) } := by
  obtain ⟨-, hvalue, hbase, hrun⟩ := h.running_of_activity hrunning
  have hpending := h.pending
  rw [hvalue, Bool.toNat_false, Frame.pending] at hpending
  refine ⟨h.destroyed, h.awaiter, ?_, h.force, ⟨hbase, hrun, .inl ⟨rfl, .inr rfl⟩⟩⟩
  rw [Frame.pending, Bool.toNat_true]
  dsimp only
  omega

theorem Alive.complete (h : f.Alive) (hwaiting : f.waiting = n + 1) :
    Alive { f with waiting := n, events := f.events ++ [.setSuspendValue] } := by
  have hne : f.pending ≠ 0 := by
    rw [Frame.pending]
    omega
  obtain ⟨-, -, hbase, -⟩ := h.suspended_of_pending hne
  have hawaiter := h.awaiter
  have hpending := h.pending
  refine ⟨h.destroyed, ?_, ?_, by simp [h.force], h.stands.post hbase (by simp) _ _⟩
  · simpa using hawaiter
  · rw [Frame.pending] at hpending ⊢
    dsimp only
    rw [List.count_append, List.count_singleton_self]
    omega

theorem Alive.coReturn (h : f.Alive) (hrunning : f.activity = some .running) :
    Alive { f with
      promise := { f.promise with point := .done }
      activity := some (.checking false) } := by
  obtain ⟨-, hvalue, hbase, hrun⟩ := h.running_of_activity hrunning
  exact ⟨h.destroyed, h.awaiter, h.pending, h.force, ⟨hvalue, hbase, hrun, .inr rfl⟩⟩

/-- No events are left when none of any type are. -/
theorem events_eq_nil {events : List TaskType} (hrun : .run ∉ events)
    (hset : events.count .setSuspendValue = 0) (hremove : events.count .removeAwaiter = 0)
    (hforce : .forceDestroy ∉ events) : events = [] := by
  rw [List.eq_nil_iff_forall_not_mem]
  intro type
  cases type with
  | run => exact hrun
  | setSuspendValue => exact List.count_eq_zero.mp hset
  | removeAwaiter => exact List.count_eq_zero.mp hremove
  | forceDestroy => exact hforce

/-- **What is destroyed after an event has nothing left that refers to it.** -/
theorem Alive.gone_of_checked (h : f.Alive)
    (hchecking : f.activity = some (.checking isForceDestroy))
    (hdestroys : Destroys f.promise isForceDestroy) :
    Gone { f with
      promise := { f.promise with destroyed := f.promise.destroyed + 1 }
      activity := none } := by
  obtain ⟨hforced, hvalue⟩ := hdestroys
  obtain ⟨-, hrun, hstands⟩ := h.stands_of_checking hchecking
  have hpending := h.pending
  rw [hvalue, Bool.toNat_false, Frame.pending] at hpending
  have hnone : f.tasks + f.events.count .removeAwaiter = 0 := by
    have hawaiter := h.awaiter
    rcases hforced with rfl | hreleased
    · have hforce : f.promise.forceDestroy = true := by
        rcases hstands with ⟨-, -, hfalse⟩ | ⟨-, -, hforce, -⟩ | ⟨-, -, hfalse⟩
        · cases hfalse
        · exact hforce
        · cases hfalse
      have hle := f.promise.hasAwaiter.toNat_le
      rw [hforce, Bool.toNat_true] at hawaiter
      omega
    · rw [hreleased, Bool.toNat_false] at hawaiter
      omega
  refine ⟨congrArg (· + 1) h.destroyed, ?_, ?_, ?_, rfl⟩
  · exact Nat.eq_zero_of_add_eq_zero_right hnone
  · change f.waiting = 0
    omega
  · have hset : f.events.count .setSuspendValue = 0 := by omega
    have hremove : f.events.count .removeAwaiter = 0 := by omega
    exact events_eq_nil hrun hset hremove h.force

theorem Alive.of_not_destroys (h : f.Alive)
    (hchecking : f.activity = some (.checking isForceDestroy))
    (hnot : ¬ Destroys f.promise isForceDestroy) : Alive { f with activity := none } := by
  obtain ⟨hbase, hrun, hstands⟩ := h.stands_of_checking hchecking
  refine ⟨h.destroyed, h.awaiter, h.pending, h.force, ?_⟩
  rw [Stands]
  rw [Destroys] at hnot
  rcases hstands with ⟨hpoint, hvalue, -⟩ | ⟨-, hvalue, -, rfl⟩ | ⟨hpoint, hvalue, -⟩
  · simp_all
  · exact absurd ⟨.inl rfl, hvalue⟩ hnot
  · simp_all

/-- **The step lemma.** -/
theorem Ok.step {kind : Kind} (h : f.Ok) (hstep : Step kind f f') : f'.Ok := by
  rcases h with h | h
  · cases hstep with
    | start base parent hbase htasks => exact .inl (h.start hbase base parent)
    | drop hbase htasks => exact .inr (h.gone_of_drop hbase htasks)
    | release hbase htasks => exact .inl (h.release hbase htasks)
    | destroy hbase htasks => exact .inl (h.destroy hbase htasks)
    | run hevents hidle => exact .inl (h.run hevents)
    | resume hevents hidle hforce => exact .inl (h.setSuspendValue hevents (.inl ⟨rfl, rfl⟩))
    | reclaim hevents hidle hforce =>
      have hne : f.pending ≠ 0 := by
        rw [Frame.pending, hevents, List.count_cons_self]
        omega
      obtain ⟨-, hpoint, -⟩ := h.suspended_of_pending hne
      exact .inl (h.setSuspendValue hevents (.inr ⟨hpoint, hforce, rfl⟩))
    | removeAwaiter hevents hidle => exact .inl (h.removeAwaiter hevents hidle)
    | forceDestroy hevents hidle =>
      exact absurd (hevents ▸ List.mem_cons_self) h.force
    | suspend hrunning hn => exact .inl (h.suspend hrunning hn)
    | complete hwaiting => exact .inl (h.complete hwaiting)
    | coReturn hrunning => exact .inl (h.coReturn hrunning)
    | checked hchecking =>
      split
      case isTrue hdestroys => exact .inr (h.gone_of_checked hchecking hdestroys)
      case isFalse hnot => exact .inl (h.of_not_destroys hchecking hnot)
  · -- nothing can happen to it
    obtain ⟨-, htasks, hwaiting, hevents, hactivity⟩ := h
    cases hstep <;> simp_all

/-- Only `destroy()` sets the force flag. -/
theorem Ok.force_step {kind : Kind} (h : f.Ok) (hstep : Step kind f f') (hkind : kind ≠ .destroy) :
    f'.promise.forceDestroy = f.promise.forceDestroy := by
  cases hstep with
  | destroy => exact absurd rfl hkind
  | forceDestroy hevents =>
    rcases h with halive | hgone
    · exact absurd (hevents ▸ List.mem_cons_self) halive.force
    · rw [hgone.events] at hevents
      cases hevents
  | checked =>
    dsimp only
    split <;> rfl
  | _ => rfl

end Stands

end Frame

end Coroutine

end TradingEngine
