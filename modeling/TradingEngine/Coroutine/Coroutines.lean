import TradingEngine.Coroutine.Frame
import TradingEngine.Machinery.Handles
import TradingEngine.Machinery.Run

/-!
# Coroutine/Coroutines — tasks, futures and event bases together

The frames of a program with the wrappers and `FutureValue`s that refer to them, and the queue and
the thread of each event base.  A wrapper or a `FutureValue` may be used by any thread, so each
operation on one is a step of its own; the body of a coroutine is what its event base does between
`handle.resume()` and the check after it.
-/

namespace TradingEngine

namespace Coroutine

/-- A program; frames, wrappers and `FutureValue`s are numbered.  `tasks` are the `m_promise` of the
wrappers, `values` the promises whose await a `FutureValue` is to complete, and `activity` is what
the thread of an event base does with which promise. -/
structure Coroutines where
  count : ℕ
  promise : ℕ → Promise
  tasks : List (Option ℕ)
  values : List (Option ℕ)
  queue : ℕ → List TaskInfoEvent
  activity : ℕ → Option (ℕ × Activity)

/-- A step of a program. -/
inductive Operation
  | create
  | move (task : ℕ)
  | moveAssign (this other : ℕ)
  | release (task : ℕ)
  | destroy (task : ℕ)
  | startRunningOn (task base : ℕ)
  | awaitTask (base task : ℕ)
  | awaitFuture (base : ℕ) (hasExecuteFunc : Bool)
  | coReturn (base : ℕ)
  | moveValue (value : ℕ)
  | moveAssignValue (this other : ℕ)
  | complete (value : ℕ)
  | checkHandle (base : ℕ)
  | checkDestroy (base : ℕ)
  deriving DecidableEq, Repr

/-- The operation is not `destroy()`. -/
def Operation.notDestroy : Operation → Bool
  | .destroy _ => false
  | _ => true

/-- What a step does to a promise. -/
inductive Effect
  | used (promise : ℕ)
  | resumed (promise : ℕ)
  | destroyed (promise : ℕ)
  | nullEventBase (promise : ℕ)
  deriving DecidableEq, Repr

namespace Coroutines

/-- A program that has called no coroutine. -/
def start : Coroutines := ⟨0, fun _ => .fresh, [], [], fun _ => [], fun _ => none⟩

/-- What a wrapper holds. -/
def task (s : Coroutines) (i : ℕ) : Option ℕ := Handles.target s.tasks i

/-- What a `FutureValue` is to complete. -/
def value (s : Coroutines) (i : ℕ) : Option ℕ := Handles.target s.values i

/-- A promise is written. -/
def write (s : Coroutines) (p : ℕ) (promise : Promise) : Coroutines :=
  { s with promise := Function.update s.promise p promise }

/-- `m_task_event_queue.push`. -/
def push (s : Coroutines) (base : ℕ) (event : TaskInfoEvent) : Coroutines :=
  { s with queue := Function.update s.queue base (s.queue base ++ [event]) }

/-- An event for a promise is pushed to an event base that is read from promise `owner`. -/
def post (s : Coroutines) (owner : ℕ) (event : TaskInfoEvent) : Coroutines × List Effect :=
  match (s.promise owner).eventBase with
  | none => (s, [.used owner, .nullEventBase owner])
  | some base => (s.push base event, [.used owner])

/-- What the thread of an event base does next. -/
def goOn (s : Coroutines) (base : ℕ) (activity : Option (ℕ × Activity)) : Coroutines :=
  { s with activity := Function.update s.activity base activity }

/-- `handle.destroy()`. -/
def destroyFrame (s : Coroutines) (p : ℕ) : Coroutines :=
  s.write p { s.promise p with destroyed := (s.promise p).destroyed + 1 }

/-- `m_promise = nullptr` in a wrapper. -/
def clearTask (s : Coroutines) (i : ℕ) : Coroutines := { s with tasks := s.tasks.set i none }

/-- `m_future = nullptr` in a `FutureValue`. -/
def clearValue (s : Coroutines) (i : ℕ) : Coroutines := { s with values := s.values.set i none }

/-- `BaseTask::check_release`. -/
def checkRelease (s : Coroutines) (i : ℕ) : Coroutines × List Effect :=
  match s.task i with
  | none => (s, [])
  | some p =>
    let s := s.clearTask i
    if (s.promise p).eventBase = none then (s.destroyFrame p, [.used p, .destroyed p])
    else s.post p ⟨.removeAwaiter, p⟩

/-- `FutureValue::set_value` or `check_set_default_value`. -/
def completeValue (s : Coroutines) (i : ℕ) : Coroutines × List Effect :=
  match s.value i with
  | none => (s, [])
  | some p => (s.clearValue i).post p ⟨.setSuspendValue, p⟩

/-- `BaseTask::run_on`, and what `register_on` does. -/
def runOn (s : Coroutines) (p base : ℕ) : Coroutines × List Effect :=
  ((s.write p { s.promise p with eventBase := some base }).push base ⟨.run, p⟩, [.used p])

/-- The coroutine that an event base runs. -/
def runningOn (s : Coroutines) (base : ℕ) : Option ℕ :=
  match s.activity base with
  | some (p, .running) => some p
  | _ => none

/-- `handle.resume()`. -/
def resume (s : Coroutines) (base p : ℕ) : Coroutines × List Effect :=
  ((s.write p { s.promise p with point := .running }).goOn base (some (p, .running)),
    [.used p, .resumed p])

/-- The coroutine is suspended, and `handle.resume()` returns. -/
def suspend (s : Coroutines) (base p : ℕ) : Coroutines :=
  (s.write p { s.promise p with hasSuspendValue := true, point := .suspended }).goOn base
    (some (p, .checking false))

/-- `TaskInfoEvent::check_handle` up to the end of `handle.resume()`, for a popped event. -/
def handle (s : Coroutines) (base : ℕ) (event : TaskInfoEvent) : Coroutines × List Effect :=
  let p := event.promise
  match event.type with
  | .run => s.resume base p
  | .setSuspendValue =>
    let s := s.write p { s.promise p with hasSuspendValue := false }
    if (s.promise p).forceDestroy = false then s.resume base p
    else (s.goOn base (some (p, .checking true)), [.used p])
  | .removeAwaiter =>
    ((s.write p { s.promise p with hasAwaiter := false }).goOn base (some (p, .checking false)),
      [.used p])
  | .forceDestroy =>
    ((s.write p { s.promise p with forceDestroy := true }).goOn base (some (p, .checking true)),
      [.used p])

/-- **A step** of the program; one whose operand is not there does nothing. -/
def step (s : Coroutines) : Operation → Coroutines × List Effect
  | .create => ({ s with count := s.count + 1, tasks := s.tasks ++ [some s.count] }, [])
  | .move i =>
    if i < s.tasks.length then
      ({ s with tasks := Handles.takeOver (s.tasks ++ [none]) s.tasks.length i }, [])
    else (s, [])
  | .moveAssign this other =>
    if this = other ∨ s.tasks.length ≤ this then (s, [])
    else
      let released := s.checkRelease this
      ({ released.1 with tasks := Handles.takeOver released.1.tasks this other }, released.2)
  | .release i => s.checkRelease i
  | .destroy i =>
    match s.task i with
    | none => (s, [])
    | some p =>
      if (s.promise p).eventBase = none then (s, [.used p])
      else
        ((s.write p { s.promise p with forceDestroy := true }).clearTask i, [.used p])
  | .startRunningOn i base =>
    match s.task i with
    | none => (s, [])
    | some p => s.runOn p base
  | .awaitTask base i =>
    match s.runningOn base, s.task i with
    | some p, some child =>
      -- `await_ready`
      if (s.promise child).point = .done then (s, [.used child])
      else
        match (s.promise p).eventBase with
        | none => (s, [.used child, .used p, .nullEventBase p])
        | some parentBase =>
          let s := s.suspend base p
          let s := s.write child { s.promise child with suspendingPromise := some p }
          ((s.runOn child parentBase).1, [.used child, .used p])
    | _, _ => (s, [])
  | .awaitFuture base hasExecuteFunc =>
    match s.runningOn base with
    | none => (s, [])
    | some p =>
      let s := s.suspend base p
      ({ s with values := if hasExecuteFunc = true then s.values ++ [some p] else s.values },
        [.used p])
  | .coReturn base =>
    match s.runningOn base with
    | none => (s, [])
    | some p =>
      let s := (s.write p { s.promise p with point := .done }).goOn base (some (p, .checking false))
      match (s.promise p).suspendingPromise with
      | none => (s, [.used p])
      | some parent => s.post p ⟨.setSuspendValue, parent⟩
  | .moveValue i =>
    if i < s.values.length then
      ({ s with values := Handles.takeOver (s.values ++ [none]) s.values.length i }, [])
    else (s, [])
  | .moveAssignValue this other =>
    if this = other ∨ s.values.length ≤ this then (s, [])
    else
      let completed := s.completeValue this
      ({ completed.1 with values := Handles.takeOver completed.1.values this other }, completed.2)
  | .complete i => s.completeValue i
  | .checkHandle base =>
    match s.activity base, s.queue base with
    | none, event :: rest =>
      handle { s with queue := Function.update s.queue base rest } base event
    | _, _ => (s, [])
  | .checkDestroy base =>
    match s.activity base with
    | some (p, .checking isForceDestroy) =>
      let s := s.goOn base none
      if Frame.Destroys (s.promise p) isForceDestroy then
        (s.destroyFrame p, [.used p, .destroyed p])
      else (s, [.used p])
    | _ => (s, [])

end Coroutines

end Coroutine

end TradingEngine
