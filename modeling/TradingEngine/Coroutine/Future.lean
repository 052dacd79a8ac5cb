import TradingEngine.Coroutine.EventQueue
import TradingEngine.Machinery.Handles
import Mathlib.Logic.Function.Basic

/-!
# Coroutine/Future — an awaited future completes once

`co_await` on a `Future` makes a `FutureValue` and gives it to the function of the future, which
moves it on, overwrites it, sets it or drops it.  The `FutureValue`s of a program stand in a list, a
destroyed one as `none`.  Beside its pointer each of them remembers the await it stands for, until
it is moved from or dropped: what is said of an await is said with these.

The event that completes an await goes to the queue of an event base, whose `push` throws when it is
full.  The value is stored by then, the `FutureValue` keeps its pointer, and a destructor ends the
process.
-/

namespace TradingEngine

namespace Coroutine

/-- A promise that waits, and the event base it runs on. -/
structure Suspending where
  promise : ℕ
  eventBase : ℕ
  deriving DecidableEq, Repr

/-- A `Future<T>` that is awaited. -/
structure Future (τ : Type*) where
  valueObject : τ
  suspendingPromise : Suspending

/-- `Future<T>::FutureValue`: its pointer, and the await that it stands for. -/
structure FutureValue where
  future : Option ℕ
  awaited : Option ℕ
  deriving DecidableEq, Repr

/-- The awaits of a program, its `FutureValue`s, the posted `SET_SUSPEND_VALUE` events with the
futures that posted them, and what was set, with the await that it was set for; `queued` is the
number of events in the queue of each event base. -/
structure FutureProgram (τ : Type*) where
  futures : List (Future τ)
  values : List (Option FutureValue)
  events : List (Suspending × ℕ)
  sets : List (ℕ × τ)
  queued : ℕ → ℕ
  terminated : Bool

/-- An operation; `FutureValue`s are given by their places.  With `queue` the other events of an
event base come and go. -/
inductive FutureOperation (τ : Type*)
  | await (promise : Suspending) (content : τ)
  | construct
  | moveConstruct (other : ℕ)
  | moveAssign (this other : ℕ)
  | assignNull (this : ℕ)
  | setValue (this : ℕ) (value : τ)
  | destroy (this : ℕ)
  | queue (eventBase queued : ℕ)
  deriving DecidableEq, Repr

namespace FutureValue

/-- `FutureValue()`, and one that was moved from. -/
def null : FutureValue := ⟨none, none⟩

end FutureValue

namespace FutureProgram

variable {τ : Type*} [Inhabited τ]

/-- A program that has awaited nothing. -/
def start : FutureProgram τ := ⟨[], [], [], [], fun _ => 0, false⟩

/-- The `FutureValue` at a place, if it lives. -/
def value (p : FutureProgram τ) (i : ℕ) : Option FutureValue := (p.values[i]?).join

/-- The value is stored in a future. -/
def store (p : FutureProgram τ) (future : ℕ) (f : Future τ) (value : τ) : FutureProgram τ :=
  { p with futures := p.futures.set future { f with valueObject := value } }

/-- `add_set_suspend_value_event`; the error is the state in which `push` throws. -/
def post (p : FutureProgram τ) (promise : Suspending) (future : ℕ) :
    Except (FutureProgram τ) (FutureProgram τ) :=
  match push (p.queued promise.eventBase) with
  | none => .error p
  | some queued =>
    .ok { p with
      events := p.events ++ [(promise, future)]
      queued := Function.update p.queued promise.eventBase queued }

/-- `Future::set_value`. -/
def setFuture (p : FutureProgram τ) (future : ℕ) (value : τ) :
    Except (FutureProgram τ) (FutureProgram τ) :=
  match p.futures[future]? with
  | none => .ok p
  | some f => (p.store future f value).post f.suspendingPromise future

/-- `Future::set_value` through a pointer, unless that is null. -/
def setThrough (p : FutureProgram τ) (pointer : Option ℕ) (value : τ) :
    Except (FutureProgram τ) (FutureProgram τ) :=
  match pointer with
  | none => .ok p
  | some future => p.setFuture future value

/-- A `FutureValue` is written. -/
def write (p : FutureProgram τ) (i : ℕ) (value : Option FutureValue) : FutureProgram τ :=
  { p with values := p.values.set i value }

/-- A `FutureValue` is made. -/
def make (p : FutureProgram τ) (value : FutureValue) : FutureProgram τ :=
  { p with values := p.values ++ [some value] }

/-- `FutureValue::check_set_default_value`; nothing is undone when it throws. -/
def checkSetDefaultValue (p : FutureProgram τ) (this : ℕ) (v : FutureValue) :
    Except (FutureProgram τ) (FutureProgram τ) :=
  (p.setThrough v.future default).map (·.write this (some .null))

/-- `m_future = copy.m_future; copy.m_future = nullptr`. -/
def takeOver (p : FutureProgram τ) (this other : ℕ) (copy : FutureValue) : FutureProgram τ :=
  (p.write this (some copy)).write other (some .null)

/-- A value was set for an await, if there is one. -/
def record (p : FutureProgram τ) (awaited : Option ℕ) (value : τ) : FutureProgram τ :=
  match awaited with
  | none => p
  | some await => { p with sets := p.sets ++ [(await, value)] }

/-- `std::terminate`. -/
def terminate (p : FutureProgram τ) : FutureProgram τ := { p with terminated := true }

/-- What an operation does.  An operand that does not live is no operand. -/
def operate (p : FutureProgram τ) : FutureOperation τ → FutureProgram τ
  -- `await_suspend`, up to the call of the function
  | .await promise content =>
    make { p with futures := p.futures ++ [⟨content, promise⟩] }
      ⟨some p.futures.length, some p.futures.length⟩
  | .construct => p.make .null
  | .moveConstruct other =>
    match p.value other with
    | none => p
    | some copy => (p.make .null).takeOver p.values.length other copy
  | .moveAssign this other =>
    match p.value this, p.value other with
    | some v, some copy =>
      if this = other then p
      else match p.checkSetDefaultValue this v with
        | .ok q => q.takeOver this other copy
        | .error q => q
    | _, _ => p
  | .assignNull this =>
    match p.value this with
    | none => p
    | some v => match p.checkSetDefaultValue this v with
      | .ok q | .error q => q
  | .setValue this value =>
    match p.value this with
    | none => p
    | some v => match p.setThrough v.future value with
      | .ok q => (q.write this (some { v with future := none })).record v.awaited value
      | .error q => q
  -- a destructor is `noexcept`
  | .destroy this =>
    match p.value this with
    | none => p
    | some v => match p.checkSetDefaultValue this v with
      | .ok q => q.write this none
      | .error q => q.terminate
  | .queue eventBase queued => { p with queued := Function.update p.queued eventBase queued }

/-- **A step** of the program, until the process ends. -/
def step (p : FutureProgram τ) (operation : FutureOperation τ) : FutureProgram τ :=
  if p.terminated then p else p.operate operation

/-- `Future::await_resume`. -/
def awaitResume (p : FutureProgram τ) (future : ℕ) : Option τ :=
  p.futures[future]?.map (·.valueObject)

/-- What was set first for an await, of what was not refused. -/
def firstSet (p : FutureProgram τ) (await : ℕ) : Option τ :=
  (p.sets.find? (·.1 = await)).map (·.2)

/-- The awaits that the `FutureValue`s stand for. -/
def targets (p : FutureProgram τ) : List (Option ℕ) := p.values.map fun v => v.bind (·.awaited)

/-- The number of `FutureValue`s that stand for an await. -/
def standing (p : FutureProgram τ) (await : ℕ) : ℕ := Handles.holders p.targets await

/-- Nothing was set for the await, and a `FutureValue` stands for it. -/
def pending (p : FutureProgram τ) (await : ℕ) : Bool :=
  (p.firstSet await).isNone && p.standing await != 0

/-! ## Writing and making a FutureValue -/

section Values

open Handles

variable {p : FutureProgram τ} {i j : ℕ} {v w : FutureValue} {new : Option FutureValue}

omit [Inhabited τ]

theorem getElem?_of_value (h : p.value i = some v) : p.values[i]? = some (some v) :=
  Option.join_eq_some_iff.mp h

theorem lt_of_value (h : p.value i = some v) : i < p.values.length :=
  (List.getElem?_eq_some_iff.mp (getElem?_of_value h)).1

theorem target_of_value (h : p.value i = some v) : p.targets[i]? = some v.awaited := by
  rw [targets, List.getElem?_map, getElem?_of_value h]
  rfl

theorem value_write_self (h : i < p.values.length) (new : Option FutureValue) :
    (p.write i new).value i = new := by
  rw [value, write, List.getElem?_set_self h]
  rfl

theorem value_write_of_ne (h : j ≠ i) (new : Option FutureValue) :
    (p.write i new).value j = p.value j := by
  rw [value, write, List.getElem?_set_ne h.symm, value]

theorem value_make_of_ne (h : j ≠ p.values.length) (w : FutureValue) :
    (p.make w).value j = p.value j := by
  rw [value, make, value]
  rcases Nat.lt_or_gt_of_ne h with hlt | hgt
  · rw [List.getElem?_append_left hlt]
  · rw [List.getElem?_eq_none (by rw [List.length_append, List.length_singleton]; omega),
      List.getElem?_eq_none (Nat.le_of_lt hgt)]

theorem value_make_self (p : FutureProgram τ) (w : FutureValue) :
    (p.make w).value p.values.length = some w := by
  rw [value, make, List.getElem?_concat_length]
  rfl

/-- **What stands for an await**, when a `FutureValue` is written. -/
theorem standing_write (h : p.value i = some v) (new : Option FutureValue) (a : ℕ) :
    (p.write i new).standing a + weight v.awaited a =
      p.standing a + weight (new.bind (·.awaited)) a := by
  rw [standing, targets, write, List.map_set]
  exact holders_set (target_of_value h) _ a

theorem standing_make (p : FutureProgram τ) (w : FutureValue) (a : ℕ) :
    (p.make w).standing a = p.standing a + weight w.awaited a := by
  rw [standing, targets, make, List.map_append]
  exact holders_concat p.targets w.awaited a

end Values

/-! ## The invariant -/

section Invariant

open Handles

variable {p q : FutureProgram τ} {i j a : ℕ} {v w : FutureValue}

/-- **The invariant.**  A `FutureValue` that stands for an await has its pointer until something is
set, and only one stands for an await; an event was posted for the awaits that are not pending. -/
structure Inv (p : FutureProgram τ) : Prop where
  future : ∀ i v, p.value i = some v → v.future = v.awaited.filter fun a => (p.firstSet a).isNone
  range : ∀ i v a, p.value i = some v → v.awaited = some a → a < p.futures.length
  unique : ∀ a, p.standing a ≤ 1
  sets : ∀ set ∈ p.sets, set.1 < p.futures.length
  posted : ∀ event ∈ p.events, event.2 < p.futures.length
  events : ∀ a f, p.futures[a]? = some f →
    p.events.filter (·.2 = a) = if p.pending a = true then [] else [(f.suspendingPromise, a)]
  value : ∀ a f, p.futures[a]? = some f → p.pending a = false →
    f.valueObject = (p.firstSet a).getD default

omit [Inhabited τ] in
/-- A `FutureValue` that stands for an await is counted. -/
theorem standing_pos (h : p.value i = some v) (hawaited : v.awaited = some a) :
    1 ≤ p.standing a := by
  have hle := weight_le_holders (target_of_value h) a
  rwa [hawaited, weight_self] at hle

/-- No other one stands for it. -/
theorem Inv.eq_of_awaited (h : Inv p) (hi : p.value i = some v) (hj : p.value j = some w)
    (hv : v.awaited = some a) (hw : w.awaited = some a) : i = j := by
  by_contra hne
  have hle := weight_add_le_holders hne (target_of_value hi) (target_of_value hj) a
  have hunique : holders p.targets a ≤ 1 := h.unique a
  rw [hv, hw, weight_self] at hle
  omega

theorem Inv.pending_iff (h : Inv p) (hv : p.value i = some v) (hawaited : v.awaited = some a) :
    p.pending a = true ↔ v.future = some a := by
  have hpos := standing_pos hv hawaited
  have hne : (p.standing a != 0) = true := by
    rw [bne_iff_ne]
    omega
  rw [pending, hne, Bool.and_true, h.future i v hv, hawaited, Option.filter_some]
  cases (p.firstSet a).isNone <;> simp

/-- What `set_value` through a pointer does when it returns. -/
structure Through (p q : FutureProgram τ) (pointer : Option ℕ) (x : τ) : Prop where
  values : q.values = p.values
  sets : q.sets = p.sets
  length : q.futures.length = p.futures.length
  posted : (∀ event ∈ p.events, event.2 < p.futures.length) →
    ∀ event ∈ q.events, event.2 < p.futures.length
  future : ∀ b f', q.futures[b]? = some f' → ∃ f, p.futures[b]? = some f ∧
    f'.suspendingPromise = f.suspendingPromise ∧
    f'.valueObject = (if pointer = some b then x else f.valueObject) ∧
    q.events.filter (·.2 = b) =
      p.events.filter (·.2 = b) ++ if pointer = some b then [(f.suspendingPromise, b)] else []

omit [Inhabited τ] in
theorem through_none (p : FutureProgram τ) (x : τ) : Through p p none x where
  values := rfl
  sets := rfl
  length := rfl
  posted := fun h => h
  future := fun b f' hf => ⟨f', hf, rfl, by simp⟩

omit [Inhabited τ] in
/-- A pointer to nothing: no future is set. -/
theorem through_absent {a : ℕ} (hnone : p.futures[a]? = none) (x : τ) :
    Through p p (some a) x where
  values := rfl
  sets := rfl
  length := rfl
  posted := fun h => h
  future := by
    intro b f' hf
    have hne : a ≠ b := by
      rintro rfl
      rw [hnone] at hf
      cases hf
    exact ⟨f', hf, rfl, by simp [hne]⟩

/-- The program in which the value is stored and the event posted. -/
def posted (p : FutureProgram τ) (a : ℕ) (f : Future τ) (x : τ) : FutureProgram τ :=
  { p.store a f x with
    events := p.events ++ [(f.suspendingPromise, a)]
    queued := Function.update p.queued f.suspendingPromise.eventBase
      (p.queued f.suspendingPromise.eventBase + 1) }

omit [Inhabited τ] in
theorem through_posted {f : Future τ} (hat : p.futures[a]? = some f) (x : τ) :
    Through p (p.posted a f x) (some a) x := by
  have hlt : a < p.futures.length := (List.getElem?_eq_some_iff.mp hat).1
  refine ⟨rfl, rfl, List.length_set, fun h event hevent => ?_, fun b f' hf => ?_⟩
  · rcases List.mem_append.mp hevent with hold | hnew
    · exact h event hold
    · obtain rfl := List.mem_singleton.mp hnew
      exact hlt
  · have hf : (p.futures.set a { f with valueObject := x })[b]? = some f' := hf
    rcases eq_or_ne a b with rfl | hne
    · rw [List.getElem?_set_self hlt] at hf
      obtain rfl := Option.some.inj hf
      exact ⟨f, hat, rfl, by simp [posted]⟩
    · rw [List.getElem?_set_ne hne] at hf
      exact ⟨f', hf, rfl, by simp [posted, hne]⟩

omit [Inhabited τ] in
theorem setThrough_of_room {f : Future τ} (hat : p.futures[a]? = some f)
    (hroom : p.queued f.suspendingPromise.eventBase < maxTaskInfo) (x : τ) :
    p.setThrough (some a) x = .ok (p.posted a f x) := by
  have hpush : push ((p.store a f x).queued f.suspendingPromise.eventBase) =
      some (p.queued f.suspendingPromise.eventBase + 1) := push_of_lt hroom
  rw [setThrough, setFuture, hat]
  dsimp only
  rw [post, hpush]
  rfl

omit [Inhabited τ] in
theorem setThrough_of_full {f : Future τ} (hat : p.futures[a]? = some f)
    (hfull : maxTaskInfo ≤ p.queued f.suspendingPromise.eventBase) (x : τ) :
    p.setThrough (some a) x = .error (p.store a f x) := by
  have hpush : push ((p.store a f x).queued f.suspendingPromise.eventBase) = none :=
    push_of_le hfull
  rw [setThrough, setFuture, hat]
  dsimp only
  rw [post, hpush]

omit [Inhabited τ] in
/-- **It returns, or the queue was full.** -/
theorem setThrough_cases (p : FutureProgram τ) (pointer : Option ℕ) (x : τ) :
    (∃ q, p.setThrough pointer x = .ok q ∧ Through p q pointer x) ∨
      ∃ a f, pointer = some a ∧ p.futures[a]? = some f ∧
        p.setThrough pointer x = .error (p.store a f x) := by
  cases pointer with
  | none => exact .inl ⟨p, rfl, through_none p x⟩
  | some a =>
    cases hat : p.futures[a]? with
    | none => exact .inl ⟨p, by rw [setThrough, setFuture, hat], through_absent hat x⟩
    | some f =>
      rcases Nat.lt_or_ge (p.queued f.suspendingPromise.eventBase) maxTaskInfo with hroom | hfull
      · exact .inl ⟨_, setThrough_of_room hat hroom x, through_posted hat x⟩
      · exact .inr ⟨a, f, rfl, hat, setThrough_of_full hat hfull x⟩

/-- A pointer leads to an await that is pending. -/
theorem Inv.pending_of_future (h : Inv p) (hv : p.value i = some v) (hfuture : v.future = some a) :
    p.pending a = true := by
  have hawaited : v.awaited = some a := by
    have hfilter := h.future i v hv
    rw [hfuture] at hfilter
    exact (Option.filter_eq_some_iff.mp hfilter.symm).1
  exact (h.pending_iff hv hawaited).mpr hfuture

/-- **A refused value** is kept for an await that is still pending: nothing is asked of it. -/
theorem Inv.refused (h : Inv p) {f : Future τ} (hpending : p.pending a = true)
    (hat : p.futures[a]? = some f) (x : τ) : Inv (p.store a f x) := by
  have hlength : (p.store a f x).futures.length = p.futures.length := List.length_set
  have hfuture : ∀ b f', (p.store a f x).futures[b]? = some f' →
      (b = a ∧ f' = { f with valueObject := x }) ∨ (b ≠ a ∧ p.futures[b]? = some f') := by
    intro b f' hf'
    have hf' : (p.futures.set a { f with valueObject := x })[b]? = some f' := hf'
    rcases eq_or_ne a b with rfl | hne
    · rw [List.getElem?_set_self (List.getElem?_eq_some_iff.mp hat).1] at hf'
      exact .inl ⟨rfl, (Option.some.inj hf').symm⟩
    · rw [List.getElem?_set_ne hne] at hf'
      exact .inr ⟨hne.symm, hf'⟩
  refine ⟨h.future, fun i v b hv hb => ?_, h.unique, fun set hset => ?_, fun event hevent => ?_,
    fun b f' hf' => ?_, fun b f' hf' hsettled => ?_⟩
  · exact hlength ▸ h.range i v b hv hb
  · exact hlength ▸ h.sets set hset
  · exact hlength ▸ h.posted event hevent
  · rcases hfuture b f' hf' with ⟨rfl, rfl⟩ | ⟨-, hf⟩
    · exact h.events b f hat
    · exact h.events b f' hf
  · rcases hfuture b f' hf' with ⟨rfl, rfl⟩ | ⟨-, hf⟩
    · exact absurd (hpending.symm.trans hsettled) Bool.noConfusion
    · exact h.value b f' hf hsettled

/-- Nothing is asked of the queues, or of the end of the process. -/
theorem Inv.queues (h : Inv p) (queued : ℕ → ℕ) (terminated : Bool) :
    Inv { p with queued := queued, terminated := terminated } :=
  ⟨h.future, h.range, h.unique, h.sets, h.posted, h.events, h.value⟩

/-- A `FutureValue` has settled its await: the future has what was set first, or is to have `x`, and
the value that stands in its place has no pointer. -/
structure Settles (p q : FutureProgram τ) (v v' : FutureValue) (x : τ) (sets' : List (ℕ × τ)) :
    Prop where
  through : Through p q v.future x
  future : v'.future = none
  awaited : v'.awaited = none ∨ v'.awaited = v.awaited
  sets : ∀ set ∈ sets', set.1 < p.futures.length
  other : ∀ b, v.awaited ≠ some b → firstSet { p with sets := sets' } b = p.firstSet b
  kept : ∀ a, v'.awaited = some a → (firstSet { p with sets := sets' } a).isNone = false
  value : ∀ a, v.awaited = some a →
    (firstSet { p with sets := sets' } a).getD default = (p.firstSet a).getD x

section Settle

variable {v' : FutureValue} {x : τ} {sets' : List (ℕ × τ)}

theorem Settles.value_eq (hs : Settles p q v v' x sets') (k : ℕ) : q.value k = p.value k := by
  rw [FutureProgram.value, hs.through.values, FutureProgram.value]

theorem Settles.standing (hs : Settles p q v v' x sets') (hv : p.value i = some v) (b : ℕ) :
    (q.write i (some v')).standing b + weight v.awaited b =
      p.standing b + weight v'.awaited b := by
  have hwrite := standing_write ((hs.value_eq i).trans hv) (some v') b
  rwa [FutureProgram.standing, FutureProgram.standing, targets, targets,
    hs.through.values] at hwrite

/-- The awaits of the others are as they were. -/
theorem Settles.pending_of_ne (hs : Settles p q v v' x sets') (hv : p.value i = some v) {b : ℕ}
    (hne : v.awaited ≠ some b) :
    pending { q.write i (some v') with sets := sets' } b = p.pending b := by
  have hweight : weight v.awaited b = 0 := if_neg hne
  have hweight' : weight v'.awaited b = 0 := by
    rcases hs.awaited with hnone | hsame
    · rw [hnone, weight_none]
    · rw [hsame, hweight]
  have hsame : (q.write i (some v')).standing b = p.standing b := by
    have := hs.standing hv b
    omega
  have hfirst : firstSet { q.write i (some v') with sets := sets' } b = p.firstSet b :=
    hs.other b hne
  rw [pending, pending, hfirst]
  exact congrArg (fun n => (p.firstSet b).isNone && n != 0) hsame

/-- Its own await is pending no more. -/
theorem Settles.pending_self (hs : Settles p q v v' x sets') (h : Inv p)
    (hv : p.value i = some v) {a : ℕ} (ha : v.awaited = some a) :
    pending { q.write i (some v') with sets := sets' } a = false := by
  rcases hs.awaited with hnone | hsame
  · have hstand := hs.standing hv a
    rw [ha, hnone, weight_self, weight_none] at hstand
    have hunique := h.unique a
    have hzero : (q.write i (some v')).standing a = 0 := by omega
    have hne : ((q.write i (some v')).standing a != 0) = false := by rw [hzero]; rfl
    exact (Bool.and_eq_false_iff ..).mpr (.inr hne)
  · exact (Bool.and_eq_false_iff ..).mpr (.inl (hs.kept a (hsame.trans ha)))

/-- A pointer is that of its own await. -/
theorem Inv.future_ne (h : Inv p) (hv : p.value i = some v) {b : ℕ} (hb : v.awaited ≠ some b) :
    v.future ≠ some b := by
  intro heq
  rw [h.future i v hv] at heq
  exact hb (Option.filter_eq_some_iff.mp heq).1

/-- **Its event is posted**, unless it was posted before. -/
theorem Settles.events (hs : Settles p q v v' x sets') (h : Inv p) (hv : p.value i = some v)
    {b : ℕ} {f' : Future τ} (hf' : q.futures[b]? = some f') :
    q.events.filter (·.2 = b) =
      if pending { q.write i (some v') with sets := sets' } b = true then []
      else [(f'.suspendingPromise, b)] := by
  obtain ⟨f, hf, hpromise, -, hevents⟩ := hs.through.future b f' hf'
  refine hevents.trans ?_
  rw [h.events b f hf, hpromise]
  by_cases hb : v.awaited = some b
  · rw [hs.pending_self h hv hb]
    by_cases hpending : p.pending b = true
    · rw [if_pos hpending, if_pos ((h.pending_iff hv hb).mp hpending)]
      rfl
    · rw [if_neg hpending, if_neg fun heq => hpending ((h.pending_iff hv hb).mpr heq)]
      rfl
  · rw [hs.pending_of_ne hv hb, if_neg (h.future_ne hv hb), List.append_nil]

omit [Inhabited τ] in
/-- An await that is settled although a value stands for it has been set. -/
theorem firstSet_of_settled (hv : p.value i = some v) {b : ℕ} (hb : v.awaited = some b)
    (hpending : ¬ p.pending b = true) : ∃ y, p.firstSet b = some y := by
  have hpos := standing_pos hv hb
  have hsome : (p.firstSet b).isNone = false := by
    by_contra hnone
    refine hpending ((Bool.and_eq_true ..).mpr ⟨by simpa using hnone, ?_⟩)
    rw [bne_iff_ne]
    omega
  exact Option.isSome_iff_exists.mp (by simpa using hsome)

/-- **Its future has what was set first.** -/
theorem Settles.valueObject (hs : Settles p q v v' x sets') (h : Inv p) (hv : p.value i = some v)
    {b : ℕ} {f' : Future τ} (hf' : q.futures[b]? = some f')
    (hpending : pending { q.write i (some v') with sets := sets' } b = false) :
    f'.valueObject = (firstSet { p with sets := sets' } b).getD default := by
  obtain ⟨f, hf, -, hobject, -⟩ := hs.through.future b f' hf'
  rw [hobject]
  by_cases hb : v.awaited = some b
  · rw [hs.value b hb]
    by_cases hpending : p.pending b = true
    · have hnone := ((Bool.and_eq_true ..).mp hpending).1
      rw [if_pos ((h.pending_iff hv hb).mp hpending), Option.isNone_iff_eq_none.mp hnone]
      rfl
    · obtain ⟨y, hy⟩ := firstSet_of_settled hv hb hpending
      rw [if_neg fun heq => hpending ((h.pending_iff hv hb).mpr heq),
        h.value b f hf (by simpa using hpending), hy]
      rfl
  · rw [hs.pending_of_ne hv hb] at hpending
    rw [if_neg (h.future_ne hv hb), hs.other b hb, h.value b f hf hpending]

/-- **A `FutureValue` settles its await**: it sets the future if nothing was set yet, and loses its
pointer. -/
theorem Inv.settle (h : Inv p) (hv : p.value i = some v) (hs : Settles p q v v' x sets') :
    Inv { q.write i (some v') with sets := sets' } := by
  have hlt : i < q.values.length := lt_of_value ((hs.value_eq i).trans hv)
  have hlength := hs.through.length
  refine ⟨fun k w hw => ?_, fun k w b hw hb => ?_, fun b => ?_, fun set hset => ?_,
    fun event hevent => ?_, fun b f' hf' => hs.events h hv hf',
    fun b f' hf' hpending => hs.valueObject h hv hf' hpending⟩
  · rcases eq_or_ne k i with rfl | hne
    · obtain rfl := Option.some.inj ((value_write_self hlt _).symm.trans hw)
      rw [hs.future]
      cases hw' : v'.awaited with
      | none => rfl
      | some a =>
        have hset : (firstSet { q.write k (some v') with sets := sets' } a).isNone = false :=
          hs.kept a hw'
        rw [Option.filter_some, hset]
        rfl
    · have hw : p.value k = some w :=
        (hs.value_eq k).symm.trans ((value_write_of_ne hne _).symm.trans hw)
      rw [h.future k w hw]
      cases hb : w.awaited with
      | none => rfl
      | some b =>
        have hb' : v.awaited ≠ some b := fun hv' => hne (h.eq_of_awaited hw hv hb hv')
        have hfirst : firstSet { q.write i (some v') with sets := sets' } b = p.firstSet b :=
          hs.other b hb'
        rw [Option.filter_some, Option.filter_some, hfirst]
  · rw [write, hlength]
    rcases eq_or_ne k i with rfl | hne
    · obtain rfl := Option.some.inj ((value_write_self hlt _).symm.trans hw)
      rcases hs.awaited with hnone | hsame
      · rw [hnone] at hb
        cases hb
      · exact h.range k v b hv (hsame.symm.trans hb)
    · exact h.range k w b
        ((hs.value_eq k).symm.trans ((value_write_of_ne hne _).symm.trans hw)) hb
  · have hstand := hs.standing hv b
    have hunique := h.unique b
    change (q.write i (some v')).standing b ≤ 1
    rcases hs.awaited with hnone | hsame
    · rw [hnone, weight_none] at hstand
      omega
    · rw [hsame] at hstand
      omega
  · exact hlength.symm ▸ hs.sets set hset
  · exact hlength.symm ▸ hs.through.posted h.posted event hevent

end Settle

/-- **`check_set_default_value`** settles the await, or the value is refused. -/
theorem Inv.checkSetDefaultValue (h : Inv p) (hv : p.value i = some v) :
    (∃ q, p.checkSetDefaultValue i v = .ok q ∧ Inv q ∧ q.value i = some .null ∧
        ∀ j, j ≠ i → q.value j = p.value j) ∨
      ∃ q, p.checkSetDefaultValue i v = .error q ∧ Inv q := by
  rcases setThrough_cases p v.future default with ⟨q, hok, hthrough⟩ | ⟨a, f, hfuture, hat, herror⟩
  · have hsettle : Inv { q.write i (some .null) with sets := p.sets } :=
      h.settle hv ⟨hthrough, rfl, .inl rfl, h.sets, fun _ _ => rfl, nofun, fun _ _ => rfl⟩
    rw [← hthrough.sets] at hsettle
    refine .inl ⟨q.write i (some .null), ?_, hsettle, ?_, fun j hne => ?_⟩
    · rw [FutureProgram.checkSetDefaultValue, hok]
      rfl
    · refine value_write_self ?_ _
      rw [hthrough.values]
      exact lt_of_value hv
    · refine (value_write_of_ne hne _).trans ?_
      rw [FutureProgram.value, hthrough.values, FutureProgram.value]
  · refine .inr ⟨p.store a f default, ?_, h.refused (h.pending_of_future hv hfuture) hat default⟩
    rw [FutureProgram.checkSetDefaultValue, herror]
    rfl

/-- **`set_value`** when it returns. -/
theorem Inv.record (h : Inv p) (hv : p.value i = some v) {x : τ}
    (hthrough : Through p q v.future x) :
    Inv ((q.write i (some { v with future := none })).record v.awaited x) := by
  have hsets := hthrough.sets
  match v, hv, hthrough with
  | ⟨future, none⟩, hv, hthrough =>
    have hsettle : Inv { q.write i (some ⟨none, none⟩) with sets := p.sets } :=
      h.settle hv ⟨hthrough, rfl, .inr rfl, h.sets, fun _ _ => rfl, nofun, nofun⟩
    rw [← hsets] at hsettle
    exact hsettle
  | ⟨future, some a⟩, hv, hthrough =>
    have hfirst : ∀ b, firstSet { p with sets := p.sets ++ [(a, x)] } b =
        (p.firstSet b).or (if a = b then some x else none) := by
      intro b
      rw [firstSet, firstSet, List.find?_append]
      cases p.sets.find? (·.1 = b) with
      | some set => rfl
      | none => by_cases hab : a = b <;> simp [hab]
    have hsettle : Inv { q.write i (some ⟨none, some a⟩) with sets := p.sets ++ [(a, x)] } := by
      refine h.settle hv ⟨hthrough, rfl, .inr rfl, fun set hset => ?_, fun b hb => ?_,
        fun b hb => ?_, fun b hb => ?_⟩
      · rcases List.mem_append.mp hset with hold | hnew
        · exact h.sets set hold
        · obtain rfl := List.mem_singleton.mp hnew
          exact h.range i _ a hv rfl
      · have hne : a ≠ b := fun heq => hb (heq ▸ rfl)
        rw [hfirst, if_neg hne, Option.or_none]
      · obtain rfl := Option.some.inj hb
        rw [hfirst, if_pos rfl]
        cases p.firstSet a <;> rfl
      · obtain rfl := Option.some.inj hb
        rw [hfirst, if_pos rfl]
        cases p.firstSet a <;> rfl
    rw [← hsets] at hsettle
    exact hsettle

/-- **`set_value`.** -/
theorem Inv.setValue (h : Inv p) (hv : p.value i = some v) (x : τ) :
    Inv (p.operate (.setValue i x)) := by
  rw [operate, hv]
  rcases setThrough_cases p v.future x with ⟨q, hok, hthrough⟩ | ⟨a, f, hfuture, hat, herror⟩
  · dsimp only
    rw [hok]
    exact h.record hv hthrough
  · dsimp only
    rw [herror]
    exact h.refused (h.pending_of_future hv hfuture) hat x

/-- **`FutureValue`s change places**, with null ones made or destroyed. -/
theorem Inv.rearranged (h : Inv p) {values : List (Option FutureValue)}
    (hstanding : ∀ b, standing { p with values := values } b = p.standing b)
    (hat : ∀ k u, FutureProgram.value { p with values := values } k = some u →
      u = .null ∨ ∃ k', p.value k' = some u) :
    Inv { p with values := values } := by
  have hpending : ∀ b, pending { p with values := values } b = p.pending b := by
    intro b
    rw [pending, hstanding]
    rfl
  refine ⟨fun k u hu => ?_, fun k u b hu hb => ?_, fun b => ?_, h.sets, h.posted,
    fun b f hf => ?_, fun b f hf hnot => ?_⟩
  · rcases hat k u hu with rfl | ⟨k', hk'⟩
    · rfl
    · exact h.future k' u hk'
  · rcases hat k u hu with rfl | ⟨k', hk'⟩
    · cases hb
    · exact h.range k' u b hk' hb
  · rw [hstanding]
    exact h.unique b
  · rw [hpending]
    exact h.events b f hf
  · rw [hpending] at hnot
    exact h.value b f hf hnot

/-- **A `FutureValue` is moved** into the place of a null one. -/
theorem Inv.takeOver (h : Inv p) (hij : i ≠ j) (hi : p.value i = some .null)
    (hj : p.value j = some w) : Inv (p.takeOver i j w) := by
  have hi' := lt_of_value hi
  have hj' : j < (p.write i (some w)).values.length := by
    rw [write, List.length_set]
    exact lt_of_value hj
  have hmid : (p.write i (some w)).value j = some w := (value_write_of_ne hij.symm _).trans hj
  refine h.rearranged (fun b => ?_) fun k u hu => ?_
  · have hfirst := standing_write hi (some w) b
    have hsecond := standing_write hmid (some .null) b
    have hnull : weight FutureValue.null.awaited b = 0 := rfl
    have hnull' : weight ((some FutureValue.null).bind (·.awaited)) b = 0 := rfl
    have hsame : weight ((some w).bind (·.awaited)) b = weight w.awaited b := rfl
    change ((p.write i (some w)).write j (some .null)).standing b = p.standing b
    omega
  · rcases eq_or_ne k j with rfl | hkj
    · exact .inl (Option.some.inj ((value_write_self hj' _).symm.trans hu)).symm
    · have hu := (value_write_of_ne hkj _).symm.trans hu
      rcases eq_or_ne k i with rfl | hki
      · obtain rfl := Option.some.inj ((value_write_self hi' _).symm.trans hu)
        exact .inr ⟨j, hj⟩
      · exact .inr ⟨k, (value_write_of_ne hki _).symm.trans hu⟩

/-- **A null `FutureValue` is made.** -/
theorem Inv.makeNull (h : Inv p) : Inv (p.make .null) := by
  refine h.rearranged (fun b => standing_make p .null b) fun k u hu => ?_
  rcases eq_or_ne k p.values.length with rfl | hne
  · exact .inl (Option.some.inj ((value_make_self p _).symm.trans hu)).symm
  · exact .inr ⟨k, (value_make_of_ne hne _).symm.trans hu⟩

/-- **A null `FutureValue` is destroyed.** -/
theorem Inv.destroyNull (h : Inv p) (hi : p.value i = some .null) : Inv (p.write i none) := by
  refine h.rearranged (fun b => standing_write hi none b) fun k u hu => ?_
  rcases eq_or_ne k i with rfl | hne
  · cases (value_write_self (lt_of_value hi) _).symm.trans hu
  · exact .inr ⟨k, (value_write_of_ne hne _).symm.trans hu⟩

/-- **Nothing is known of the next await.** -/
theorem Inv.next (h : Inv p) : p.standing p.futures.length = 0 ∧
    p.firstSet p.futures.length = none ∧ p.events.filter (·.2 = p.futures.length) = [] := by
  refine ⟨holders_eq_zero_iff.mpr fun hmem => ?_, ?_, ?_⟩
  · obtain ⟨entry, hentry, hawaited⟩ := List.mem_map.mp hmem
    obtain ⟨v, rfl, hv⟩ := Option.bind_eq_some_iff.mp hawaited
    obtain ⟨k, hk⟩ := List.mem_iff_getElem?.mp hentry
    have hvalue : p.value k = some v := by rw [FutureProgram.value, hk]; rfl
    exact absurd (h.range k v _ hvalue hv) (Nat.lt_irrefl _)
  · rw [firstSet, Option.map_eq_none_iff, List.find?_eq_none]
    intro set hset
    have hlt := h.sets set hset
    simp only [decide_eq_true_eq]
    omega
  · rw [List.filter_eq_nil_iff]
    intro event hevent
    have hlt := h.posted event hevent
    simp only [decide_eq_true_eq]
    omega

/-- **A future is awaited.** -/
theorem Inv.await (h : Inv p) (promise : Suspending) (content : τ) :
    Inv (p.operate (.await promise content)) := by
  obtain ⟨hzero, hfirst, hevents⟩ := h.next
  have hstanding : ∀ b, (p.operate (.await promise content)).standing b =
      p.standing b + weight (some p.futures.length) b := fun b => standing_make _ _ b
  have hsame : ∀ b, b ≠ p.futures.length →
      (p.operate (.await promise content)).pending b = p.pending b := by
    intro b hne
    rw [pending, hstanding, weight_of_ne hne.symm]
    rfl
  have hnext : (p.operate (.await promise content)).pending p.futures.length = true := by
    rw [pending, hstanding, hzero, weight_self]
    change ((p.firstSet p.futures.length).isNone && _) = true
    rw [hfirst]
    rfl
  have hat : ∀ k u, (p.operate (.await promise content)).value k = some u →
      u = ⟨some p.futures.length, some p.futures.length⟩ ∨ p.value k = some u := by
    intro k u hu
    rcases eq_or_ne k p.values.length with rfl | hne
    · exact .inl (Option.some.inj ((value_make_self _ _).symm.trans hu)).symm
    · exact .inr ((value_make_of_ne hne _).symm.trans hu)
  have hlength : (p.operate (.await promise content)).futures.length = p.futures.length + 1 :=
    List.length_append
  have hfuture : ∀ b f, (p.operate (.await promise content)).futures[b]? = some f →
      (b = p.futures.length ∧ f = ⟨content, promise⟩) ∨
        (b ≠ p.futures.length ∧ p.futures[b]? = some f) := by
    intro b f hf
    have hf : (p.futures ++ [⟨content, promise⟩])[b]? = some f := hf
    rcases eq_or_ne b p.futures.length with rfl | hne
    · rw [List.getElem?_concat_length] at hf
      exact .inl ⟨rfl, (Option.some.inj hf).symm⟩
    · have hlt := (List.getElem?_eq_some_iff.mp hf).1
      rw [List.length_append, List.length_singleton] at hlt
      rw [List.getElem?_append_left (by omega)] at hf
      exact .inr ⟨hne, hf⟩
  refine ⟨fun k u hu => ?_, fun k u b hu hb => ?_, fun b => ?_, fun set hset => ?_,
    fun event hevent => ?_, fun b f hf => ?_, fun b f hf hnot => ?_⟩
  · rcases hat k u hu with rfl | hk
    · change _ = Option.filter (fun a => (p.firstSet a).isNone) (some p.futures.length)
      rw [Option.filter_some, hfirst]
      rfl
    · exact h.future k u hk
  · rw [hlength]
    rcases hat k u hu with rfl | hk
    · obtain rfl := Option.some.inj hb
      exact Nat.lt_succ_self _
    · exact Nat.lt_succ_of_lt (h.range k u b hk hb)
  · rw [hstanding]
    rcases eq_or_ne b p.futures.length with rfl | hne
    · exact Nat.le_of_eq (congrArg₂ (· + ·) hzero (weight_self _))
    · rw [weight_of_ne hne.symm]
      exact h.unique b
  · exact hlength ▸ Nat.lt_succ_of_lt (h.sets set hset)
  · exact hlength ▸ Nat.lt_succ_of_lt (h.posted event hevent)
  · rcases hfuture b f hf with ⟨rfl, rfl⟩ | ⟨hne, hf⟩
    · rw [hnext]
      exact hevents
    · rw [hsame b hne]
      exact h.events b f hf
  · rcases hfuture b f hf with ⟨rfl, rfl⟩ | ⟨hne, hf⟩
    · rw [hnext] at hnot
      cases hnot
    · rw [hsame b hne] at hnot
      exact h.value b f hf hnot

theorem inv_start : Inv (start : FutureProgram τ) where
  future := nofun
  range := nofun
  unique := fun _ => Nat.zero_le _
  sets := fun _ hset => absurd hset List.not_mem_nil
  posted := fun _ hevent => absurd hevent List.not_mem_nil
  events := nofun
  value := nofun

/-- **The step lemma**, one case for each operation. -/
theorem Inv.operate (h : Inv p) (operation : FutureOperation τ) : Inv (p.operate operation) := by
  cases operation with
  | await promise content => exact h.await promise content
  | construct => exact h.makeNull
  | moveConstruct other =>
    rw [FutureProgram.operate]
    split
    case h_1 => exact h
    case h_2 copy hcopy =>
      have hlt := lt_of_value hcopy
      have hother : (p.make .null).value other = some copy :=
        (value_make_of_ne (Nat.ne_of_lt hlt) _).trans hcopy
      exact h.makeNull.takeOver (Nat.ne_of_gt hlt) (value_make_self p _) hother
  | moveAssign this other =>
    rw [FutureProgram.operate]
    split
    case h_1 v copy hv hcopy =>
      split
      case isTrue => exact h
      case isFalse hne =>
        rcases h.checkSetDefaultValue hv with ⟨q, hok, hinv, hnull, hothers⟩ | ⟨q, herror, hinv⟩
        · rw [hok]
          exact hinv.takeOver hne hnull ((hothers other (Ne.symm hne)).trans hcopy)
        · rw [herror]
          exact hinv
    case h_2 => exact h
  | assignNull this =>
    rw [FutureProgram.operate]
    split
    case h_1 => exact h
    case h_2 v hv =>
      rcases h.checkSetDefaultValue hv with ⟨q, hok, hinv, -⟩ | ⟨q, herror, hinv⟩
      · rw [hok]
        exact hinv
      · rw [herror]
        exact hinv
  | setValue this value =>
    cases hv : p.value this with
    | none =>
      rw [FutureProgram.operate, hv]
      exact h
    | some v => exact h.setValue hv value
  | destroy this =>
    rw [FutureProgram.operate]
    split
    case h_1 => exact h
    case h_2 v hv =>
      rcases h.checkSetDefaultValue hv with ⟨q, hok, hinv, hnull, -⟩ | ⟨q, herror, hinv⟩
      · rw [hok]
        exact hinv.destroyNull hnull
      · rw [herror]
        exact hinv.queues _ true
  | queue eventBase queued => exact h.queues _ p.terminated

theorem Inv.step (h : Inv p) (operation : FutureOperation τ) : Inv (p.step operation) := by
  rw [FutureProgram.step]
  split
  · exact h
  · exact h.operate operation

/-! ## What holds in every program -/

/-- The queue that completes an await has a place. -/
def HasRoom (p : FutureProgram τ) (await : ℕ) : Prop :=
  ∀ f, p.futures[await]? = some f → p.queued f.suspendingPromise.eventBase < maxTaskInfo

/-- An operation that completes the await of the `FutureValue` at a place, and with which value. -/
inductive Gives (p : FutureProgram τ) (i : ℕ) : FutureOperation τ → τ → Prop
  | setValue (x : τ) : Gives p i (.setValue i x) x
  | assignNull : Gives p i (.assignNull i) default
  | moveAssign (j : ℕ) (copy : FutureValue) (hij : i ≠ j) (hcopy : p.value j = some copy) :
      Gives p i (.moveAssign i j) default
  | destroy : Gives p i (.destroy i) default

/-- The future a pointer leads to is there. -/
theorem Inv.exists_future (h : Inv p) (hv : p.value i = some ⟨some a, some a⟩) :
    ∃ f, p.futures[a]? = some f :=
  ⟨_, List.getElem?_eq_getElem (h.range i _ a hv rfl)⟩

/-- An await that an event was posted for is settled. -/
theorem Inv.settled_of_event (h : Inv p) {promise : Suspending} (hevent : (promise, a) ∈ p.events) :
    p.pending a = false := by
  have hfilter := h.events a _ (List.getElem?_eq_getElem (h.posted _ hevent))
  by_contra hpending
  rw [if_pos (by simpa using hpending), List.filter_eq_nil_iff] at hfilter
  exact hfilter _ hevent (decide_eq_true rfl)

/-- **What an operation gives** to the await, when its event finds a place. -/
theorem operate_of_room {f : Future τ} {operation : FutureOperation τ} {x : τ}
    (hv : p.value i = some ⟨some a, some a⟩) (hgives : Gives p i operation x)
    (hat : p.futures[a]? = some f) (hroom : p.queued f.suspendingPromise.eventBase < maxTaskInfo) :
    (p.operate operation).events = p.events ++ [(f.suspendingPromise, a)] ∧
      (p.operate operation).futures = p.futures.set a { f with valueObject := x } := by
  have hcheck : p.checkSetDefaultValue i ⟨some a, some a⟩ =
      .ok ((p.posted a f default).write i (some .null)) := by
    rw [FutureProgram.checkSetDefaultValue, setThrough_of_room hat hroom]
    rfl
  cases hgives with
  | setValue =>
    rw [FutureProgram.operate, hv]
    dsimp only
    rw [setThrough_of_room hat hroom]
    exact ⟨rfl, rfl⟩
  | assignNull =>
    rw [FutureProgram.operate, hv]
    dsimp only
    rw [hcheck]
    exact ⟨rfl, rfl⟩
  | moveAssign j copy hij hcopy =>
    rw [FutureProgram.operate, hv, hcopy]
    dsimp only
    rw [if_neg hij, hcheck]
    exact ⟨rfl, rfl⟩
  | destroy =>
    rw [FutureProgram.operate, hv]
    dsimp only
    rw [hcheck]
    exact ⟨rfl, rfl⟩

/-- **What a refused operation leaves**: the value stored, and nothing else changed. -/
theorem operate_of_full {f : Future τ} {operation : FutureOperation τ} {x : τ}
    (hv : p.value i = some ⟨some a, some a⟩) (hgives : Gives p i operation x)
    (hat : p.futures[a]? = some f) (hfull : maxTaskInfo ≤ p.queued f.suspendingPromise.eventBase) :
    (operation = .destroy i ∧ p.operate operation = (p.store a f x).terminate) ∨
      (operation ≠ .destroy i ∧ p.operate operation = p.store a f x) := by
  have hcheck : p.checkSetDefaultValue i ⟨some a, some a⟩ = .error (p.store a f default) := by
    rw [FutureProgram.checkSetDefaultValue, setThrough_of_full hat hfull]
    rfl
  cases hgives with
  | setValue =>
    refine .inr ⟨by simp, ?_⟩
    rw [FutureProgram.operate, hv]
    dsimp only
    rw [setThrough_of_full hat hfull]
  | assignNull =>
    refine .inr ⟨by simp, ?_⟩
    rw [FutureProgram.operate, hv]
    dsimp only
    rw [hcheck]
  | moveAssign j copy hij hcopy =>
    refine .inr ⟨by simp, ?_⟩
    rw [FutureProgram.operate, hv, hcopy]
    dsimp only
    rw [if_neg hij, hcheck]
  | destroy =>
    refine .inl ⟨rfl, ?_⟩
    rw [FutureProgram.operate, hv]
    dsimp only
    rw [hcheck]

omit [Inhabited τ] in
theorem HasRoom.lt (h : p.HasRoom a) {f : Future τ} (hat : p.futures[a]? = some f) :
    p.queued f.suspendingPromise.eventBase < maxTaskInfo := h f hat

omit [Inhabited τ] in
theorem le_of_not_hasRoom (h : ¬ p.HasRoom a) {f : Future τ} (hat : p.futures[a]? = some f) :
    maxTaskInfo ≤ p.queued f.suspendingPromise.eventBase := by
  refine Nat.le_of_not_lt fun hlt => h fun f' hat' => ?_
  obtain rfl := Option.some.inj (hat.symm.trans hat')
  exact hlt

theorem step_of_running (h : p.terminated = false) (operation : FutureOperation τ) :
    p.step operation = p.operate operation := by
  rw [FutureProgram.step, h]
  rfl

theorem Inv.completed (h : Inv p) {operation : FutureOperation τ} {x : τ}
    (hrunning : p.terminated = false) (hv : p.value i = some ⟨some a, some a⟩)
    (hgives : Gives p i operation x) (hroom : p.HasRoom a) :
    (∃ promise, (p.step operation).events = p.events ++ [(promise, a)]) ∧
      (p.step operation).awaitResume a = some x ∧ (p.step operation).pending a = false := by
  obtain ⟨f, hat⟩ := h.exists_future hv
  obtain ⟨hevents, hfutures⟩ := operate_of_room hv hgives hat (hroom.lt hat)
  have hmem : (f.suspendingPromise, a) ∈ (p.operate operation).events := by
    rw [hevents]
    exact List.mem_append_right _ List.mem_cons_self
  rw [step_of_running hrunning]
  refine ⟨⟨f.suspendingPromise, hevents⟩, ?_, (h.operate operation).settled_of_event hmem⟩
  rw [awaitResume, hfutures, List.getElem?_set_self (List.getElem?_eq_some_iff.mp hat).1]
  rfl

theorem Inv.kept (h : Inv p) {operation : FutureOperation τ} {x : τ}
    (hrunning : p.terminated = false) (hv : p.value i = some ⟨some a, some a⟩)
    (hgives : Gives p i operation x) (hfull : ¬ p.HasRoom a) :
    (p.step operation).events = p.events ∧ (p.step operation).values = p.values ∧
      (p.step operation).pending a = true ∧
      ((p.step operation).terminated = true ↔ operation = .destroy i) := by
  obtain ⟨f, hat⟩ := h.exists_future hv
  have hpending : p.pending a = true := h.pending_of_future hv rfl
  rw [step_of_running hrunning]
  rcases operate_of_full hv hgives hat (le_of_not_hasRoom hfull hat) with
    ⟨hdestroy, heq⟩ | ⟨hother, heq⟩
  · rw [heq]
    exact ⟨rfl, rfl, hpending, fun _ => hdestroy, fun _ => rfl⟩
  · rw [heq]
    refine ⟨rfl, rfl, hpending, fun hterminated => ?_, fun hdestroy => absurd hdestroy hother⟩
    exact absurd (hrunning.symm.trans hterminated) Bool.noConfusion

/-- The first await is overwritten by the second, which is set twice. -/
example :
    (Run.exec step (start : FutureProgram ℕ)
      [.await ⟨7, 0⟩ 9, .await ⟨8, 0⟩ 9, .moveAssign 0 1, .setValue 0 5, .setValue 0 6,
        .destroy 0]).events = [(⟨7, 0⟩, 0), (⟨8, 0⟩, 1)] := by decide

end Invariant

end FutureProgram

end Coroutine

end TradingEngine
