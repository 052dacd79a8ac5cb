import TradingEngine.Coroutine.EventQueue
import TradingEngine.Coroutine.FrameLifetime

/-!
# Coroutine/FullQueue — what a refused push leaves behind

The queue of an event base holds `MAX_TASK_INFO` events, and `push` throws when it is full.  The
operations of `Coroutines` are taken again with what each of them has written before its push: where
there is room they are the ones of the unbounded queue (`attempt_eq`), and a refused one leaves
`written`.  So a run of calls that survive is a run of the unbounded program without the refused
ones (`exec_accepted`).
-/

namespace TradingEngine

namespace Coroutine

open Handles Run

/-- An operation, and whether it is a destructor that calls `check_release` or
`check_set_default_value`: the `release` and `complete` of others are assignments of `nullptr` and
`set_value`. -/
structure Call where
  operation : Operation
  isDestructor : Bool
  deriving DecidableEq, Repr

/-- An exception does not get out of the call: a destructor is `noexcept`, and so is the
`unhandled_exception` that an exception of `return_value` ends in. -/
def Call.isNoexcept : Call → Bool
  | ⟨.release _, isDestructor⟩ | ⟨.complete _, isDestructor⟩ => isDestructor
  | ⟨.coReturn _, _⟩ => true
  | _ => false

/-- The call writes nothing before its push, and its caller gets the exception. -/
def Call.keeps : Call → Bool
  | ⟨.release _, isDestructor⟩ | ⟨.complete _, isDestructor⟩ => !isDestructor
  | ⟨.moveAssign _ _, _⟩ | ⟨.moveAssignValue _ _, _⟩ => true
  | _ => false

/-- What becomes of a call. -/
inductive Outcome
  | returned (s : Coroutines)
  | threw (s : Coroutines)
  | terminated (s : Coroutines)

/-- The state that a call ends in. -/
def Outcome.state : Outcome → Coroutines
  | .returned s | .threw s | .terminated s => s

namespace Coroutines

/-! ## The operations with a queue that can be full -/

/-- `m_task_event_queue.push`; the error is the state in which it throws. -/
def tryPush (s : Coroutines) (base : ℕ) (event : TaskInfoEvent) : Except Coroutines Coroutines :=
  if (s.queue base).length < maxTaskInfo then .ok (s.push base event) else .error s

/-- `post`, with a push that can throw. -/
def tryPost (s : Coroutines) (owner : ℕ) (event : TaskInfoEvent) :
    Except Coroutines (Coroutines × List Effect) :=
  match (s.promise owner).eventBase with
  | none => .ok (s, [.used owner, .nullEventBase owner])
  | some base => (s.tryPush base event).map fun s => (s, [.used owner])

/-- `BaseTask::check_release`; `m_promise = nullptr` comes last. -/
def tryRelease (s : Coroutines) (i : ℕ) : Except Coroutines (Coroutines × List Effect) :=
  match s.task i with
  | none => .ok (s, [])
  | some p =>
    if (s.promise p).eventBase = none then
      .ok ((s.destroyFrame p).clearTask i, [.used p, .destroyed p])
    else (s.tryPost p ⟨.removeAwaiter, p⟩).map fun r => (r.1.clearTask i, r.2)

/-- `FutureValue::set_value` or `check_set_default_value`; `m_future = nullptr` comes last. -/
def tryComplete (s : Coroutines) (i : ℕ) : Except Coroutines (Coroutines × List Effect) :=
  match s.value i with
  | none => .ok (s, [])
  | some p => (s.tryPost p ⟨.setSuspendValue, p⟩).map fun r => (r.1.clearValue i, r.2)

/-- `m_event_base = event_base` comes before the push. -/
def setEventBase (s : Coroutines) (p base : ℕ) : Coroutines :=
  s.write p { s.promise p with eventBase := some base }

/-- `BaseTask::run_on`, and what `register_on` does. -/
def tryRunOn (s : Coroutines) (p base : ℕ) : Except Coroutines (Coroutines × List Effect) :=
  ((s.setEventBase p base).tryPush base ⟨.run, p⟩).map fun s => (s, [.used p])

/-- What `BaseTask::await_suspend` writes before `run_on`. -/
def setAwaiting (s : Coroutines) (p child : ℕ) : Coroutines :=
  let s := s.write p { s.promise p with hasSuspendValue := true }
  s.write child { s.promise child with suspendingPromise := some p }

/-- `await_suspend` has returned, and `handle.resume()` returns. -/
def leaveSuspended (s : Coroutines) (base p : ℕ) : Coroutines :=
  (s.write p { s.promise p with point := .suspended }).goOn base (some (p, .checking false))

/-- The coroutine is done, and `handle.resume()` returns. -/
def leaveDone (s : Coroutines) (base p : ℕ) : Coroutines :=
  (s.write p { s.promise p with point := .done }).goOn base (some (p, .checking false))

/-- **An operation** as the code orders its writes and its push.  An exception of `await_suspend`
is thrown on in the body of the coroutine, which stays the one that its event base runs. -/
def attempt (s : Coroutines) : Operation → Except Coroutines (Coroutines × List Effect)
  | .moveAssign this other =>
    if this = other ∨ s.tasks.length ≤ this then .ok (s, [])
    else (s.tryRelease this).map fun released =>
      ({ released.1 with tasks := takeOver released.1.tasks this other }, released.2)
  | .release i => s.tryRelease i
  | .startRunningOn i base =>
    match s.task i with
    | none => .ok (s, [])
    | some p => s.tryRunOn p base
  | .awaitTask base i =>
    match s.runningOn base, s.task i with
    | some p, some child =>
      -- `await_ready`
      if (s.promise child).point = .done then .ok (s, [.used child])
      else
        match (s.promise p).eventBase with
        | none => .ok (s, [.used child, .used p, .nullEventBase p])
        | some parentBase =>
          ((s.setAwaiting p child).tryRunOn child parentBase).map fun r =>
            (r.1.leaveSuspended base p, [.used child, .used p])
    | _, _ => .ok (s, [])
  | .coReturn base =>
    match s.runningOn base with
    | none => .ok (s, [])
    | some p =>
      match (s.promise p).suspendingPromise with
      | none => .ok (s.leaveDone base p, [.used p])
      | some parent =>
        (s.tryPost p ⟨.setSuspendValue, parent⟩).map fun r => (r.1.leaveDone base p, r.2)
  | .moveAssignValue this other =>
    if this = other ∨ s.values.length ≤ this then .ok (s, [])
    else (s.tryComplete this).map fun completed =>
      ({ completed.1 with values := takeOver completed.1.values this other }, completed.2)
  | .complete i => s.tryComplete i
  | operation => .ok (s.step operation)

/-- A call. -/
def call (s : Coroutines) (call : Call) : Outcome :=
  match s.attempt call.operation with
  | .ok r => .returned r.1
  | .error t => if call.isNoexcept = true then .terminated t else .threw t

/-- The state after a call. -/
def nextCall (s : Coroutines) (call : Call) : Coroutines := (s.call call).state

/-! ## What is asked of a refused push -/

/-- What the wrappers, the `FutureValue`s and the promises say is as it was. -/
structure Intact (s t : Coroutines) : Prop where
  tasks : t.tasks = s.tasks
  values : t.values = s.values
  eventBase : ∀ p, (t.promise p).eventBase = (s.promise p).eventBase
  hasSuspendValue : ∀ p, (t.promise p).hasSuspendValue = (s.promise p).hasSuspendValue
  hasAwaiter : ∀ p, (t.promise p).hasAwaiter = (s.promise p).hasAwaiter
  forceDestroy : ∀ p, (t.promise p).forceDestroy = (s.promise p).forceDestroy

/-- A coroutine is suspended, and nobody is to complete it. -/
def Orphan (s : Coroutines) (p : ℕ) : Prop :=
  (s.promise p).point = .suspended ∧ (s.promise p).destroyed = 0 ∧ (s.frame p).pending = 0

/-- **A call survives a full queue.** -/
def Survives (s : Coroutines) (call : Call) : Prop :=
  match s.call call with
  | .returned _ => True
  | .threw t => s.Intact t ∧ ∀ p, t.Orphan p → s.Orphan p
  | .terminated _ => False

/-- There is room in a queue; nothing is asked if no event is posted. -/
def HasRoom (s : Coroutines) (base : Option ℕ) : Prop :=
  ∀ b ∈ base, (s.queue b).length < maxTaskInfo

instance (s : Coroutines) (base : Option ℕ) : Decidable (s.HasRoom base) :=
  inferInstanceAs (Decidable (∀ b ∈ base, _))

/-- The event base of what a wrapper or a `FutureValue` refers to. -/
def baseOf (s : Coroutines) (p : Option ℕ) : Option ℕ := p.bind fun p => (s.promise p).eventBase

/-- The event base that an operation posts to. -/
def postsTo (s : Coroutines) : Operation → Option ℕ
  | .moveAssign this other =>
    if this = other ∨ s.tasks.length ≤ this then none else s.baseOf (s.task this)
  | .release i => s.baseOf (s.task i)
  | .startRunningOn i base => (s.task i).map fun _ => base
  | .awaitTask base i =>
    match s.runningOn base, s.task i with
    | some p, some child =>
      if (s.promise child).point = .done then none else (s.promise p).eventBase
    | _, _ => none
  | .coReturn base =>
    (s.runningOn base).bind fun p =>
      (s.promise p).suspendingPromise.bind fun _ => (s.promise p).eventBase
  | .moveAssignValue this other =>
    if this = other ∨ s.values.length ≤ this then none else s.baseOf (s.value this)
  | .complete i => s.baseOf (s.value i)
  | _ => none

/-- The push finds room, or the call is one that has written nothing before it. -/
def Condition (s : Coroutines) (call : Call) : Prop :=
  s.HasRoom (s.postsTo call.operation) ∨ call.keeps = true

instance (s : Coroutines) (call : Call) : Decidable (s.Condition call) :=
  inferInstanceAs (Decidable (_ ∨ _))

/-- What an operation has written when its push throws. -/
def written (s : Coroutines) : Operation → Coroutines
  | .startRunningOn i base => (s.task i).elim s fun p => s.setEventBase p base
  | .awaitTask base i =>
    match s.runningOn base, s.task i with
    | some p, some child =>
      (s.promise p).eventBase.elim s fun parentBase =>
        (s.setAwaiting p child).setEventBase child parentBase
    | _, _ => s
  | _ => s

/-! ## Where there is room, and where there is none -/

section Attempts

variable {s : Coroutines} {p base i : ℕ} {event : TaskInfoEvent}

theorem tryPush_eq (s : Coroutines) (base : ℕ) (event : TaskInfoEvent) :
    s.tryPush base event = if s.HasRoom (some base) then .ok (s.push base event) else .error s := by
  have hroom : s.HasRoom (some base) ↔ (s.queue base).length < maxTaskInfo := by simp [HasRoom]
  rw [tryPush]
  exact (if_congr hroom rfl rfl).symm

theorem hasRoom_none (s : Coroutines) : s.HasRoom none := by
  rintro b ⟨⟩

theorem tryPost_eq (s : Coroutines) (owner : ℕ) (event : TaskInfoEvent) :
    s.tryPost owner event =
      if s.HasRoom (s.promise owner).eventBase then .ok (s.post owner event) else .error s := by
  rw [tryPost, post]
  cases (s.promise owner).eventBase with
  | none => rw [if_pos s.hasRoom_none]
  | some base =>
    dsimp only
    rw [tryPush_eq]
    split <;> rfl

theorem clearTask_post (s : Coroutines) (i owner : ℕ) (event : TaskInfoEvent) :
    (s.clearTask i).post owner event =
      ((s.post owner event).1.clearTask i, (s.post owner event).2) := by
  rw [post, post]
  change (match (s.promise owner).eventBase with | none => _ | some base => _) = _
  cases (s.promise owner).eventBase <;> rfl

theorem clearValue_post (s : Coroutines) (i owner : ℕ) (event : TaskInfoEvent) :
    (s.clearValue i).post owner event =
      ((s.post owner event).1.clearValue i, (s.post owner event).2) := by
  rw [post, post]
  change (match (s.promise owner).eventBase with | none => _ | some base => _) = _
  cases (s.promise owner).eventBase <;> rfl

theorem tryRelease_eq (s : Coroutines) (i : ℕ) :
    s.tryRelease i =
      if s.HasRoom (s.baseOf (s.task i)) then .ok (s.checkRelease i) else .error s := by
  rw [tryRelease, checkRelease]
  cases s.task i with
  | none => exact (if_pos s.hasRoom_none).symm
  | some p =>
    have hbase : s.baseOf (some p) = (s.promise p).eventBase := rfl
    have hclear : ((s.clearTask i).promise p) = s.promise p := rfl
    dsimp only
    rw [hbase, hclear]
    split
    case isTrue hnone =>
      rw [hnone, if_pos s.hasRoom_none]
      rfl
    case isFalse =>
      rw [tryPost_eq, clearTask_post]
      split <;> rfl

theorem tryComplete_eq (s : Coroutines) (i : ℕ) :
    s.tryComplete i =
      if s.HasRoom (s.baseOf (s.value i)) then .ok (s.completeValue i) else .error s := by
  rw [tryComplete, completeValue]
  cases s.value i with
  | none => exact (if_pos s.hasRoom_none).symm
  | some p =>
    have hbase : s.baseOf (some p) = (s.promise p).eventBase := rfl
    dsimp only
    rw [hbase, tryPost_eq, clearValue_post]
    split <;> rfl

theorem tryRunOn_eq (s : Coroutines) (p base : ℕ) :
    s.tryRunOn p base =
      if s.HasRoom (some base) then .ok (s.runOn p base) else .error (s.setEventBase p base) := by
  have hroom : (s.setEventBase p base).HasRoom (some base) ↔ s.HasRoom (some base) := Iff.rfl
  rw [tryRunOn, tryPush_eq]
  simp only [hroom]
  split <;> rfl

/-- The coroutine that is suspended at last is suspended as if it had been at first. -/
theorem leaveSuspended_setAwaiting (s : Coroutines) (base p child parentBase : ℕ) :
    (((s.setAwaiting p child).runOn child parentBase).1).leaveSuspended base p =
      (((s.suspend base p).write child
        { (s.suspend base p).promise child with suspendingPromise := some p }).runOn child
          parentBase).1 := by
  have hpromise : ((((s.setAwaiting p child).runOn child parentBase).1).leaveSuspended base
      p).promise = ((((s.suspend base p).write child
        { (s.suspend base p).promise child with suspendingPromise := some p }).runOn child
          parentBase).1).promise := by
    funext q
    rcases eq_or_ne p child with rfl | hne
    · rcases eq_or_ne q p with rfl | hq <;>
        simp [leaveSuspended, setAwaiting, runOn, suspend, write, goOn, push, *]
    · rcases eq_or_ne q p with rfl | hq
      · simp [leaveSuspended, setAwaiting, runOn, suspend, write, goOn, push, hne]
      · rcases eq_or_ne q child with rfl | hchild <;>
          simp [leaveSuspended, setAwaiting, runOn, suspend, write, goOn, push, *]
  exact congrArg (fun promise => Coroutines.mk _ promise _ _ _ _) hpromise

theorem leaveDone_post (s : Coroutines) (base p parent : ℕ) :
    (s.leaveDone base p).post p ⟨.setSuspendValue, parent⟩ =
      ((s.post p ⟨.setSuspendValue, parent⟩).1.leaveDone base p,
        (s.post p ⟨.setSuspendValue, parent⟩).2) := by
  have hself : (s.leaveDone base p).promise p = { s.promise p with point := .done } :=
    Function.update_self ..
  rw [post, hself, post]
  change (match (s.promise p).eventBase with | none => _ | some base => _) = _
  cases (s.promise p).eventBase <;> rfl

/-- A coroutine that returns is done before it posts, or after. -/
theorem step_coReturn (s : Coroutines) (base : ℕ) :
    s.step (.coReturn base) =
      match s.runningOn base with
      | none => (s, [])
      | some p =>
        match (s.promise p).suspendingPromise with
        | none => (s.leaveDone base p, [.used p])
        | some parent => (s.leaveDone base p).post p ⟨.setSuspendValue, parent⟩ := by
  rw [Coroutines.step]
  cases s.runningOn base with
  | none => rfl
  | some p =>
    have hself : (s.write p { s.promise p with point := .done }).promise p =
        { s.promise p with point := .done } := Function.update_self ..
    dsimp only [goOn]
    rw [hself]
    rfl

/-- **An operation is the one of the unbounded queue where its push finds room**, and leaves what it
has written where it does not. -/
theorem attempt_eq (s : Coroutines) (operation : Operation) :
    s.attempt operation =
      if s.HasRoom (s.postsTo operation) then .ok (s.step operation)
      else .error (s.written operation) := by
  cases operation with
  | moveAssign this other =>
    rw [attempt, postsTo, Coroutines.step]
    split
    case isTrue => exact (if_pos s.hasRoom_none).symm
    case isFalse =>
      rw [tryRelease_eq]
      split <;> rfl
  | release i => exact s.tryRelease_eq i
  | startRunningOn i base =>
    rw [attempt, postsTo, Coroutines.step, written]
    cases s.task i with
    | none => exact (if_pos s.hasRoom_none).symm
    | some p => exact s.tryRunOn_eq p base
  | awaitTask base i =>
    rw [attempt, postsTo, Coroutines.step, written]
    cases s.runningOn base with
    | none => exact (if_pos s.hasRoom_none).symm
    | some p =>
      cases s.task i with
      | none => exact (if_pos s.hasRoom_none).symm
      | some child =>
        dsimp only
        split
        case isTrue => exact (if_pos s.hasRoom_none).symm
        case isFalse =>
          cases (s.promise p).eventBase with
          | none => exact (if_pos s.hasRoom_none).symm
          | some parentBase =>
            have hroom : (s.setAwaiting p child).HasRoom (some parentBase) ↔
                s.HasRoom (some parentBase) := Iff.rfl
            dsimp only
            rw [tryRunOn_eq, ← leaveSuspended_setAwaiting]
            simp only [hroom]
            split <;> rfl
  | coReturn base =>
    rw [attempt, postsTo, step_coReturn]
    cases s.runningOn base with
    | none => exact (if_pos s.hasRoom_none).symm
    | some p =>
      change _ = if s.HasRoom ((s.promise p).suspendingPromise.bind fun _ =>
        (s.promise p).eventBase) then _ else _
      dsimp only
      cases (s.promise p).suspendingPromise with
      | none => exact (if_pos s.hasRoom_none).symm
      | some parent =>
        dsimp only
        rw [tryPost_eq, leaveDone_post]
        change _ = if s.HasRoom (s.promise p).eventBase then _ else _
        split <;> rfl
  | moveAssignValue this other =>
    rw [attempt, postsTo, Coroutines.step]
    split
    case isTrue => exact (if_pos s.hasRoom_none).symm
    case isFalse =>
      rw [tryComplete_eq]
      split <;> rfl
  | complete i => exact s.tryComplete_eq i
  | _ => exact (if_pos s.hasRoom_none).symm

theorem nextCall_of_room {call : Call} (h : s.HasRoom (s.postsTo call.operation)) :
    s.nextCall call = next Coroutines.step s call.operation := by
  rw [nextCall, Coroutines.call, attempt_eq, if_pos h]
  rfl

theorem call_of_room {call : Call} (h : s.HasRoom (s.postsTo call.operation)) :
    s.call call = .returned (next Coroutines.step s call.operation) := by
  rw [Coroutines.call, attempt_eq, if_pos h]
  rfl

theorem call_of_full {call : Call} (h : ¬ s.HasRoom (s.postsTo call.operation)) :
    s.call call = if call.isNoexcept = true then .terminated (s.written call.operation)
      else .threw (s.written call.operation) := by
  rw [Coroutines.call, attempt_eq, if_neg h]

/-! ## Which calls survive -/

theorem Intact.refl (s : Coroutines) : s.Intact s :=
  ⟨rfl, rfl, fun _ => rfl, fun _ => rfl, fun _ => rfl, fun _ => rfl⟩

/-- **The caller that gets the exception finds everything as it was.** -/
theorem written_of_keeps {call : Call} (h : call.keeps = true) :
    s.written call.operation = s ∧ call.isNoexcept = false := by
  obtain ⟨operation, isDestructor⟩ := call
  cases operation with
  | release i => exact ⟨rfl, (Bool.not_eq_true' _).mp h⟩
  | complete i => exact ⟨rfl, (Bool.not_eq_true' _).mp h⟩
  | moveAssign this other => exact ⟨rfl, rfl⟩
  | moveAssignValue this other => exact ⟨rfl, rfl⟩
  | _ => cases h

theorem call_of_condition {call : Call} (h : s.Condition call) :
    s.call call = .returned (next Coroutines.step s call.operation) ∨
      ¬ s.HasRoom (s.postsTo call.operation) ∧ s.call call = .threw s := by
  by_cases hroom : s.HasRoom (s.postsTo call.operation)
  · exact .inl (call_of_room hroom)
  · obtain ⟨hwritten, hnoexcept⟩ := written_of_keeps (s := s) (h.resolve_left hroom)
    refine .inr ⟨hroom, ?_⟩
    rw [call_of_full hroom, hnoexcept, hwritten]
    rfl

theorem survives_of_condition {call : Call} (h : s.Condition call) : s.Survives call := by
  rw [Survives]
  rcases call_of_condition h with hcall | ⟨-, hcall⟩
  · rw [hcall]
    trivial
  · rw [hcall]
    exact ⟨.refl s, fun _ horphan => horphan⟩

theorem setEventBase_self (s : Coroutines) (p base : ℕ) :
    ((s.setEventBase p base).promise p).eventBase = some base := by
  rw [setEventBase, write]
  dsimp only
  rw [Function.update_self]

/-- **A task that is not started keeps the event base of the refused start.** -/
theorem exists_written_eventBase {call : Call} (hstarts : s.StartsOnce call.operation)
    (hroom : ¬ s.HasRoom (s.postsTo call.operation)) (hkeeps : call.keeps ≠ true)
    (hnoexcept : call.isNoexcept ≠ true) :
    ∃ p base, (s.promise p).eventBase = none ∧
      ((s.written call.operation).promise p).eventBase = some base := by
  obtain ⟨operation, isDestructor⟩ := call
  cases operation with
  | startRunningOn i base =>
    obtain ⟨p, hi, hnone⟩ := exists_of_unstarted hstarts
    refine ⟨p, base, hnone, ?_⟩
    rw [written, hi]
    exact s.setEventBase_self p base
  | awaitTask base i =>
    obtain ⟨child, hi, hnone⟩ := exists_of_unstarted hstarts
    rw [postsTo, hi] at hroom
    cases hrunning : s.runningOn base with
    | none =>
      rw [hrunning] at hroom
      exact absurd s.hasRoom_none hroom
    | some p =>
      rw [hrunning] at hroom
      dsimp only at hroom
      split at hroom
      case isTrue => exact absurd s.hasRoom_none hroom
      case isFalse =>
        cases hparent : (s.promise p).eventBase with
        | none =>
          rw [hparent] at hroom
          exact absurd s.hasRoom_none hroom
        | some parentBase =>
          refine ⟨child, parentBase, hnone, ?_⟩
          rw [written, hrunning, hi]
          dsimp only
          rw [hparent]
          exact (s.setAwaiting p child).setEventBase_self child parentBase
  | release i =>
    cases isDestructor with
    | false => exact absurd rfl hkeeps
    | true => exact absurd rfl hnoexcept
  | complete i =>
    cases isDestructor with
    | false => exact absurd rfl hkeeps
    | true => exact absurd rfl hnoexcept
  | coReturn base => exact absurd rfl hnoexcept
  | moveAssign this other => exact absurd rfl hkeeps
  | moveAssignValue this other => exact absurd rfl hkeeps
  | _ => exact absurd s.hasRoom_none hroom

theorem condition_of_survives {call : Call} (hstarts : s.StartsOnce call.operation)
    (h : s.Survives call) : s.Condition call := by
  by_contra hcondition
  obtain ⟨hroom, hkeeps⟩ := not_or.mp hcondition
  rw [Survives, call_of_full hroom] at h
  split at h
  case h_1 r hreturned => split at hreturned <;> cases hreturned
  case h_2 t hthrew =>
    split at hthrew
    case isTrue => cases hthrew
    case isFalse hnoexcept =>
      cases hthrew
      obtain ⟨p, base, hnone, hsome⟩ := exists_written_eventBase hstarts hroom hkeeps hnoexcept
      have hsame := h.1.eventBase p
      rw [hnone, hsome] at hsame
      cases hsame
  case h_3 => exact h

end Attempts

/-! ## Runs -/

section Runs

variable {s : Coroutines} {calls : List Call}

/-- The operations of a run that are not refused. -/
def accepted (s : Coroutines) : List Call → List Operation
  | [] => []
  | call :: calls =>
    if s.HasRoom (s.postsTo call.operation) then
      call.operation :: (s.nextCall call).accepted calls
    else (s.nextCall call).accepted calls

theorem nextCall_of_condition {call : Call} (h : s.Condition call)
    (hroom : ¬ s.HasRoom (s.postsTo call.operation)) : s.nextCall call = s := by
  rcases call_of_condition h with hcall | ⟨-, hcall⟩
  · rw [call_of_full hroom] at hcall
    split at hcall <;> cases hcall
  · rw [nextCall, hcall]
    rfl

/-- **A run whose calls survive is one of the unbounded queue**, without the calls that were
refused. -/
theorem exec_accepted (h : Along nextCall Condition s calls) :
    exec nextCall s calls = exec (next Coroutines.step) s (s.accepted calls) := by
  induction calls generalizing s with
  | nil => rfl
  | cons call calls ih =>
    rw [exec_cons, ih h.2, accepted]
    split
    case isTrue hroom => rw [exec_cons, nextCall_of_room hroom]
    case isFalse hroom => rw [nextCall_of_condition h.1 hroom]

/-- What every operation of such a run has, the ones that are not refused have. -/
theorem along_accepted {P : Coroutines → Operation → Prop} (h : Along nextCall Condition s calls)
    (hP : Along nextCall (fun s call => P s call.operation) s calls) :
    Along (next Coroutines.step) P s (s.accepted calls) := by
  induction calls generalizing s with
  | nil => exact trivial
  | cons call calls ih =>
    have htail := ih h.2 hP.2
    rw [accepted]
    split
    case isTrue hroom =>
      rw [nextCall_of_room hroom] at htail ⊢
      exact ⟨hP.1, htail⟩
    case isFalse hroom =>
      rw [nextCall_of_condition h.1 hroom] at htail ⊢
      exact htail

/-- **Every frame is freed by its owner**, also where a call was refused and made again. -/
theorem lifetime_of_calls (h : Along nextCall Condition start calls)
    (hwellFormed : Along nextCall (fun s call => s.WellFormed call.operation) start calls) :
    Lifetime (exec nextCall start calls) := by
  rw [exec_accepted h]
  exact (lifetime_of_run (along_accepted h hwellFormed)).2

/-- **A full queue leaves everything intact** along every run whose pushes find room or are those of
`set_value` and the assignments; and where each task is started once, along no other. -/
theorem survives_along_iff (s : Coroutines) (calls : List Call) :
    (Along nextCall Condition s calls → Along nextCall Survives s calls) ∧
      (Along nextCall (fun s call => s.StartsOnce call.operation) s calls →
        (Along nextCall Survives s calls ↔ Along nextCall Condition s calls)) := by
  refine ⟨fun h => ?_, fun hstarts => ?_⟩
  · exact along_of_invariant (I := fun _ => True) (fun _ _ _ _ => trivial)
      (fun _ _ _ hcondition => survives_of_condition hcondition) trivial h
  · exact along_iff_of_invariant (I := fun _ => True) (fun _ _ _ _ _ => trivial)
      (fun _ _ _ honce => ⟨condition_of_survives honce, survives_of_condition⟩) trivial hstarts

/-- Tasks are made and started on one event base, which handles nothing. -/
def starting (n : ℕ) : List Call :=
  (List.range n).flatMap fun i => [⟨.create, false⟩, ⟨.startRunningOn i 0, false⟩]

/-- The first of 200 tasks awaits a future; a task more is started in its place, so that
`set_value` is refused, and made again when the next task has been taken from the queue. -/
def refusedRun : List Call :=
  starting maxTaskInfo ++
    [⟨.checkHandle 0, false⟩, ⟨.awaitFuture 0 true, false⟩, ⟨.checkDestroy 0, false⟩,
      ⟨.create, false⟩, ⟨.startRunningOn maxTaskInfo 0, false⟩, ⟨.complete 0, false⟩,
      ⟨.checkHandle 0, false⟩, ⟨.complete 0, false⟩]

theorem survives_refusedRun : Along nextCall Survives start refusedRun :=
  ((survives_along_iff start _).2 (by decide +kernel)).mpr (by decide +kernel)

/-! ## A queue that is full -/

theorem starting_succ (n : ℕ) :
    starting (n + 1) = starting n ++ [⟨.create, false⟩, ⟨.startRunningOn n 0, false⟩] := by
  rw [starting, List.range_succ, List.flatMap_append]
  rfl

/-- The state after the starts of `n` tasks. -/
structure Started (n : ℕ) (s : Coroutines) : Prop where
  tasks : s.tasks = (List.range n).map some
  count : s.count = n
  queue : (s.queue 0).length = n
  started : ∀ p, p < n → (s.promise p).eventBase = some 0
  fresh : ∀ p, n ≤ p → (s.promise p).eventBase = none

theorem Started.task_create {n : ℕ} (h : Started n s) :
    (next Coroutines.step s .create).task n = some n := by
  change target (s.tasks ++ [some s.count]) n = some n
  rw [h.tasks, h.count, ← List.map_singleton, ← List.map_append, ← List.range_succ, target]
  simp

/-- One more task is made and started. -/
theorem Started.succ {n : ℕ} (h : Started n s) (hn : n < maxTaskInfo) :
    Started (n + 1)
      (exec nextCall s [⟨.create, false⟩, ⟨.startRunningOn n 0, false⟩]) := by
  have hcreate : s.nextCall ⟨.create, false⟩ = next Coroutines.step s .create :=
    nextCall_of_room s.hasRoom_none
  have hroom : (next Coroutines.step s .create).HasRoom
      ((next Coroutines.step s .create).postsTo (.startRunningOn n 0)) := by
    rw [postsTo, h.task_create]
    rintro _ ⟨⟩
    exact h.queue ▸ hn
  have hstart : next Coroutines.step (next Coroutines.step s .create) (.startRunningOn n 0) =
      ((next Coroutines.step s .create).runOn n 0).1 := by
    rw [next, Coroutines.step, h.task_create]
  rw [exec_cons, exec_cons, exec_nil, hcreate, nextCall_of_room hroom]
  change Started (n + 1)
    (next Coroutines.step (next Coroutines.step s .create) (.startRunningOn n 0))
  rw [hstart]
  refine ⟨?_, congrArg (· + 1) h.count, ?_, fun p hp => ?_, fun p hp => ?_⟩
  · change s.tasks ++ [some s.count] = _
    rw [h.tasks, h.count, List.range_succ, List.map_append]
    rfl
  · change (Function.update s.queue 0 (s.queue 0 ++ [_]) 0).length = n + 1
    rw [Function.update_self, List.length_append, h.queue]
    rfl
  · change (Function.update s.promise n _ p).eventBase = some 0
    rcases eq_or_ne p n with rfl | hne
    · rw [Function.update_self]
    · rw [Function.update_of_ne hne]
      exact h.started p (by omega)
  · change (Function.update s.promise n _ p).eventBase = none
    rw [Function.update_of_ne (by omega)]
    exact h.fresh p (by omega)

theorem started_starting : ∀ n, n ≤ maxTaskInfo → Started n (exec nextCall start (starting n))
  | 0, _ => ⟨rfl, rfl, rfl, fun _ hp => absurd hp (Nat.not_lt_zero _), fun _ _ => rfl⟩
  | n + 1, hn => by
    rw [starting_succ, exec_append]
    exact (started_starting n (by omega)).succ hn

theorem Started.not_hasRoom (h : Started maxTaskInfo s) : ¬ s.HasRoom (some 0) := fun hroom =>
  absurd (hroom 0 rfl) (by rw [h.queue]; exact Nat.lt_irrefl _)

/-- One more start leaves its event base to a task that has no event. -/
theorem Started.not_survives_start (h : Started maxTaskInfo s) :
    ¬ Along nextCall Survives s
      [⟨.create, false⟩, ⟨.startRunningOn maxTaskInfo 0, false⟩] := by
  rintro ⟨-, hstart, -⟩
  have hcreate : s.nextCall ⟨.create, false⟩ = next Coroutines.step s .create :=
    nextCall_of_room s.hasRoom_none
  have hnone : ((next Coroutines.step s .create).promise maxTaskInfo).eventBase = none :=
    h.fresh maxTaskInfo (Nat.le_refl _)
  have honce : (next Coroutines.step s .create).Unstarted maxTaskInfo := by
    rw [Unstarted, h.task_create, Option.map_some, hnone]
  rw [hcreate] at hstart
  have hcondition : (next Coroutines.step s .create).Condition
      ⟨.startRunningOn maxTaskInfo 0, false⟩ := condition_of_survives honce hstart
  rcases hcondition with hroom | hkeeps
  · refine h.not_hasRoom ?_
    rw [postsTo, h.task_create] at hroom
    exact hroom
  · cases hkeeps

/-- The destructor of a wrapper ends the program. -/
theorem Started.not_survives_release (h : Started maxTaskInfo s) :
    ¬ Along nextCall Survives s [⟨.release 0, true⟩] := by
  rintro ⟨hrelease, -⟩
  have hzero : 0 < maxTaskInfo := by decide
  have htask : s.task 0 = some 0 := by
    rw [task, h.tasks, target]
    simp [hzero]
  have hcondition : s.Condition ⟨.release 0, true⟩ := condition_of_survives trivial hrelease
  rcases hcondition with hroom | hkeeps
  · refine h.not_hasRoom ?_
    rw [postsTo, htask, baseOf, Option.bind_some, h.started 0 hzero] at hroom
    exact hroom
  · cases hkeeps

/-- A queue that the starts of 200 tasks have filled. -/
theorem fullQueue_not_intact :
    ¬ Along nextCall Survives start (starting (maxTaskInfo + 1)) ∧
      ¬ Along nextCall Survives start (starting maxTaskInfo ++ [⟨.release 0, true⟩]) := by
  have hstarted := started_starting maxTaskInfo (Nat.le_refl _)
  refine ⟨fun h => ?_, fun h => ?_⟩
  · rw [starting_succ] at h
    exact hstarted.not_survives_start ((along_append start (starting maxTaskInfo) _).mp h).2
  · exact hstarted.not_survives_release ((along_append start (starting maxTaskInfo) _).mp h).2

end Runs

end Coroutines

end Coroutine

end TradingEngine
