import TradingEngine.Queue.QueueOrder

/-!
# Coroutine/EpollWakeUp — an EpollBase wakes up for every event

A producer pushes its event, step by step as in `Queue/MPSCQueue`, and then increments the counter
of an eventfd.  The loop waits for the counter, reads it, and pops and handles events until `pop`
returns null.  Nothing is left behind when it waits with a counter of 0, but for what a producer is
still to announce.
-/

namespace TradingEngine

namespace Coroutine

/-- `TaskInfoEvent::TaskType`; `NONE` is that of the null event. -/
inductive TaskType
  | run
  | setSuspendValue
  | removeAwaiter
  | forceDestroy
  deriving DecidableEq, Repr

/-- `TaskInfoEvent`; promises are numbered. -/
structure TaskInfoEvent where
  type : TaskType
  promise : ℕ
  deriving DecidableEq, Repr

end Coroutine

open Coroutine

/-- Where the loop is. -/
inductive LoopPoint
  | waiting
  | reading
  | draining
  | handling (event : TaskInfoEvent)
  deriving DecidableEq, Repr

/-- An `EpollBase` with its producers: `posting` are those between the return of `push` and the
increment of the counter. -/
structure EpollBase (capacity : ℕ) where
  loop : LoopPoint
  posting : ℕ → Bool
  taskEvents : ℕ
  handled : List TaskInfoEvent
  threads : QueueThreads TaskInfoEvent capacity

/-- A call of `add_run_task_event` or one of its siblings, a step of it, its `eventfd_write`, or a
step of the loop. -/
inductive EpollEvent
  | post (producer : ℕ) (event : TaskInfoEvent)
  | postStep (producer : ℕ) (fails : Bool)
  | notify (producer : ℕ)
  | loop
  deriving DecidableEq, Repr

namespace EpollBase

variable {capacity : ℕ}

/-- A new event base. -/
def start (name : String) : EpollBase capacity where
  loop := .waiting
  posting := fun _ => false
  taskEvents := 0
  handled := []
  threads := .start name false

/-- `epoll_wait`, and `TaskInfoEventEpoll::handle_read`. -/
def stepLoop (base : EpollBase capacity) : EpollBase capacity :=
  match base.loop with
  | .waiting => if base.taskEvents = 0 then base else { base with loop := .reading }
  | .reading => { base with loop := .draining, taskEvents := 0, threads := base.threads.callPop }
  | .draining =>
    let popped := base.threads.stepPop base.threads.popping
    match popped.2 with
    | [] => { base with threads := popped.1 }
    | .popped (some event) :: _ =>
      { base with
        loop := .handling event
        handled := base.handled ++ [event]
        threads := popped.1 }
    | _ => { base with loop := .waiting, threads := popped.1 }
  -- what the handler posts are steps of producers
  | .handling _ => { base with loop := .draining, threads := base.threads.callPop }

/-- **A step** of a producer or of the loop. -/
def step (base : EpollBase capacity) : EpollEvent → EpollBase capacity
  | .post producer event =>
    if base.posting producer = true then base
    else { base with threads := (base.threads.callPush producer (some event)).1 }
  | .postStep producer fails =>
    let pushed := base.threads.step (.pushStep producer fails)
    if .pushed producer ∈ pushed.2 then
      { base with posting := Function.update base.posting producer true, threads := pushed.1 }
    else { base with threads := pushed.1 }
  | .notify producer =>
    if base.posting producer = true then
      { base with
        posting := Function.update base.posting producer false
        taskEvents := base.taskEvents + 1 }
    else base
  | .loop => base.stepLoop

/-- Between the publication of an event and the increment of the counter. -/
def Notifies (base : EpollBase capacity) (producer : ℕ) : Prop :=
  base.posting producer = true ∨ ∃ item, base.threads.pushing producer = some (item, .addSize)

/-- Between the claim of a slot and the increment of the counter. -/
def Posts (base : EpollBase capacity) (producer : ℕ) : Prop :=
  base.Notifies producer ∨ ∃ pos, base.threads.Holds producer pos

end EpollBase

/-! ## Steps of the queue -/

namespace QueueThreads

variable {τ : Type*} {capacity : ℕ} {s : QueueThreads τ capacity} {producer other pos : ℕ}
  {item : Option τ} {point : PushPoint}

/-- What a step of a producer leaves alone. -/
structure PushFrame (s t : QueueThreads τ capacity) (producer : ℕ) : Prop where
  pushing : ∀ other, other ≠ producer → t.pushing other = s.pushing other
  popping : t.popping = s.popping
  tail : t.queue.tail = s.queue.tail
  called : t.called = s.called
  popped : t.popped = s.popped

theorem pushFrame_goPush (s : QueueThreads τ capacity) (producer : ℕ)
    (call : Option (Option τ × PushPoint)) {queue : MPSCQueue τ capacity}
    (htail : queue.tail = s.queue.tail) (claimed : List (ℕ × Option τ)) :
    PushFrame s ({ s.goPush producer call with queue := queue, claimed := claimed } :
      QueueThreads τ capacity) producer :=
  ⟨fun _ hne => goPush_of_ne call hne, rfl, htail, rfl, rfl⟩

theorem pushFrame_step (s : QueueThreads τ capacity) (producer : ℕ) (item : Option τ)
    (fails : Bool) (point : PushPoint) :
    PushFrame s (s.stepPush producer item fails point).1 producer := by
  match point with
  | .loadHead => exact s.pushFrame_goPush _ _ (by rfl) _
  | .loadSequence pos =>
    simp only [stepPush]
    split
    · exact s.pushFrame_goPush _ _ (by rfl) _
    · split
      · exact s.pushFrame_goPush _ _ (by rfl) _
      · exact s.pushFrame_goPush _ _ (by rfl) _
  | .exchangeHead pos =>
    rw [stepPush]
    split
    · exact s.pushFrame_goPush _ _ (by rfl) _
    · exact s.pushFrame_goPush _ _ (by rfl) _
  | .writeValue pos => exact s.pushFrame_goPush _ _ (by rfl) _
  | .publish pos => exact s.pushFrame_goPush _ _ (by rfl) _
  | .addSize => exact s.pushFrame_goPush _ _ (by rfl) _

/-- **What a step of a producer publishes**: its own item. -/
theorem published_stepPush (h : Inv s) (hat : s.pushing producer = some (item, point))
    {fails : Bool} (hpub : (s.stepPush producer item fails point).1.Published pos) :
    s.Published pos ∨
      ∃ item', (s.stepPush producer item fails point).1.pushing producer =
        some (item', .addSize) := by
  have hframe := s.pushFrame_step producer item fails point
  have hpublished : pos < s.claimed.length → ¬ s.Holds producer pos → s.Published pos := by
    intro hlt hnot
    refine ⟨hlt, fun q hq => ?_⟩
    rcases eq_or_ne q producer with rfl | hne
    · exact hnot hq
    · refine hpub.2 q ?_
      rwa [Holds, hframe.pushing q hne]
  cases point with
  | loadHead => exact .inl (hpublished hpub.1 (not_holds hat (by simp) pos))
  | loadSequence pos' =>
    refine .inl (hpublished ?_ (not_holds hat (by simp) pos))
    have hlt := hpub.1
    simp only [stepPush] at hlt
    split at hlt
    · exact hlt
    · split at hlt
      · exact hlt
      · exact hlt
  | exchangeHead pos' =>
    refine .inl (hpublished ?_ (not_holds hat (by simp) pos))
    rw [stepPush] at hpub
    split at hpub
    case isTrue hhead =>
      -- the position that was claimed is held
      have hlt := hpub.1
      rw [List.length_append, List.length_singleton] at hlt
      have hne : pos ≠ pos' := by
        rintro rfl
        exact hpub.2 producer (holds_goPush_self.mpr ⟨item, .inl rfl⟩)
      have hclaimed := h.head
      omega
    case isFalse => exact hpub.1
  | writeValue pos' =>
    refine .inl (hpublished hpub.1 fun hholds => ?_)
    obtain rfl : pos' = pos := by
      obtain ⟨_, hwrite | hpublish⟩ := hholds
      · rw [hat] at hwrite
        cases hwrite
        rfl
      · rw [hat] at hpublish
        cases hpublish
    exact hpub.2 producer (holds_goPush_self.mpr ⟨item, .inr rfl⟩)
  | publish pos' => exact .inr ⟨item, goPush_self _⟩
  | addSize => exact .inl (hpublished hpub.1 (not_holds hat (by simp) pos))

/-- A call of `push` publishes nothing, and leaves the other calls alone. -/
theorem published_callPush (s : QueueThreads τ capacity) (producer : ℕ) (item : Option τ)
    (pos : ℕ) : ((s.callPush producer item).1.Published pos ↔ s.Published pos) ∧
      ∀ other item', s.pushing other = some (item', .addSize) →
        (s.callPush producer item).1.pushing other = some (item', .addSize) := by
  rw [callPush]
  split
  case h_1 => exact ⟨Iff.rfl, fun _ _ h => h⟩
  case h_2 hnone =>
    split
    case isTrue => exact ⟨Iff.rfl, fun _ _ h => h⟩
    case isFalse =>
      refine ⟨and_congr_right fun _ => forall_congr' fun q => not_congr ?_, fun q item' hq => ?_⟩
      · rcases eq_or_ne q producer with rfl | hne
        · exact iff_of_false (not_holds (goPush_self _) (by simp) pos) (not_holds_none hnone pos)
        · exact holds_goPush_of_ne hne
      · have hne : q ≠ producer := by
          rintro rfl
          rw [hnone] at hq
          cases hq
        exact (goPush_of_ne _ hne).trans hq

end QueueThreads

/-! ## The invariant -/

namespace EpollBase

open QueueThreads

variable {capacity : ℕ} {base : EpollBase capacity} {producer : ℕ} {event : TaskInfoEvent}

/-- **The invariant.**  `wakes` is the point: what is published and not announced when the loop
waits is still to be announced. -/
structure Inv (base : EpollBase capacity) : Prop where
  queue : QueueThreads.Inv base.threads
  calls : CallsInOrder base.threads
  notNull : ∀ call ∈ base.threads.called, call.2 ≠ none
  popping : base.threads.popping = .idle ↔ base.loop ≠ .draining
  handled : base.threads.popped = base.handled.map some
  wakes : base.loop = .waiting → base.taskEvents = 0 →
    base.threads.Published base.threads.queue.tail → ∃ producer, base.Notifies producer

/-- A step makes one step of the queue at most. -/
theorem threads_step (base : EpollBase capacity) (event : EpollEvent) :
    (base.step event).threads = base.threads ∨
      ∃ step, (base.step event).threads = (base.threads.step step).1 := by
  cases event with
  | post producer event =>
    rw [step]
    split
    · exact .inl rfl
    · exact .inr ⟨.push producer (some event), rfl⟩
  | postStep producer fails =>
    simp only [step]
    split
    · exact .inr ⟨.pushStep producer fails, rfl⟩
    · exact .inr ⟨.pushStep producer fails, rfl⟩
  | notify producer =>
    rw [step]
    split
    · exact .inl rfl
    · exact .inl rfl
  | loop =>
    rw [step, stepLoop]
    split
    · split
      · exact .inl rfl
      · exact .inl rfl
    · exact .inr ⟨.pop, rfl⟩
    · simp only
      split
      · exact .inr ⟨.popStep, rfl⟩
      · exact .inr ⟨.popStep, rfl⟩
      · exact .inr ⟨.popStep, rfl⟩
    · exact .inr ⟨.pop, rfl⟩

theorem inv_start (name : String) : Inv (start name : EpollBase capacity) where
  queue := QueueThreads.inv_start name false
  calls := ⟨fun _ => List.nil_sublist _, nofun, fun _ _ hcall => absurd hcall List.not_mem_nil⟩
  notNull := fun _ hcall => absurd hcall List.not_mem_nil
  popping := iff_of_true rfl nofun
  handled := rfl
  wakes := fun _ _ hpub => absurd hpub.1 (Nat.not_lt_zero _)

theorem Inv.post (h : Inv base) (producer : ℕ) (event : TaskInfoEvent) :
    Inv { base with threads := (base.threads.callPush producer (some event)).1 } := by
  have hframe : ∀ t : QueueThreads TaskInfoEvent capacity,
      t = (base.threads.callPush producer (some event)).1 →
      t.popping = base.threads.popping ∧ t.popped = base.threads.popped ∧
        t.queue.tail = base.threads.queue.tail ∧ ∀ call ∈ t.called, call.2 ≠ none := by
    rintro t rfl
    rw [callPush]
    split
    · exact ⟨rfl, rfl, rfl, h.notNull⟩
    · split
      · exact ⟨rfl, rfl, rfl, h.notNull⟩
      · refine ⟨rfl, rfl, rfl, fun call hcall => ?_⟩
        rcases List.mem_append.mp hcall with hold | hnew
        · exact h.notNull call hold
        · obtain rfl := List.mem_singleton.mp hnew
          exact Option.some_ne_none event
  obtain ⟨hpopping, hpopped, htail, hnotNull⟩ := hframe _ rfl
  exact
    { queue := h.queue.callPush producer (some event)
      calls := h.calls.callPush producer (some event)
      notNull := hnotNull
      popping := hpopping ▸ h.popping
      handled := hpopped.trans h.handled
      wakes := by
        intro hloop htask hpub
        obtain ⟨hpublished, hstays⟩ :=
          published_callPush base.threads producer (some event) base.threads.queue.tail
        obtain ⟨q, hq⟩ := h.wakes hloop htask (hpublished.mp (htail ▸ hpub))
        refine ⟨q, ?_⟩
        rcases hq with hq | ⟨item, hq⟩
        · exact .inl hq
        · exact .inr ⟨item, hstays q item hq⟩ }

/-- **A producer makes a step**, and is posting when `push` returned. -/
theorem Inv.pushed (h : Inv base) {item : Option TaskInfoEvent} {point : PushPoint}
    (hat : base.threads.pushing producer = some (item, point)) {fails : Bool}
    (hqueue : QueueThreads.Inv (base.threads.stepPush producer item fails point).1)
    (hcalls : CallsInOrder (base.threads.stepPush producer item fails point).1)
    {posting : ℕ → Bool} (hposting : ∀ q, base.posting q = true → posting q = true)
    (hpushed : .pushed producer ∈ (base.threads.stepPush producer item fails point).2 →
      posting producer = true) :
    Inv { base with
      posting := posting
      threads := (base.threads.stepPush producer item fails point).1 } := by
  have hframe := base.threads.pushFrame_step producer item fails point
  exact
    { queue := hqueue
      calls := hcalls
      notNull := fun call hcall => h.notNull call (hframe.called ▸ hcall)
      popping := (iff_of_eq (congrArg (· = PopPoint.idle) hframe.popping)).trans h.popping
      handled := hframe.popped.trans h.handled
      wakes := by
        intro hloop htask hpub
        dsimp only at hpub
        rw [hframe.tail] at hpub
        rcases published_stepPush h.queue hat hpub with hold | ⟨item', hadd⟩
        · obtain ⟨q, hq⟩ := h.wakes hloop htask hold
          refine ⟨q, ?_⟩
          rcases hq with hq | ⟨item', hq⟩
          · exact .inl (hposting q hq)
          · rcases eq_or_ne q producer with rfl | hne
            · -- the step is the return of `push`
              obtain ⟨-, rfl⟩ := Prod.mk.inj (Option.some.inj (hat.symm.trans hq))
              exact .inl (hpushed (List.mem_singleton.mpr rfl))
            · exact .inr ⟨item', (hframe.pushing q hne).trans hq⟩
        · exact ⟨producer, .inr ⟨item', hadd⟩⟩ }

theorem Inv.postStep (h : Inv base) (hfew : base.threads.Few) (producer : ℕ) (fails : Bool) :
    Inv (base.step (.postStep producer fails)) := by
  have hqueue := h.queue.step hfew (.pushStep producer fails)
  have hcalls := h.calls.step (.pushStep producer fails)
  cases hat : base.threads.pushing producer with
  | none =>
    have hstep : base.threads.step (.pushStep producer fails) = (base.threads, []) := by
      rw [QueueThreads.step, hat]
    simp only [EpollBase.step, hstep]
    exact h
  | some call =>
    obtain ⟨item, point⟩ := call
    have hstep : base.threads.step (.pushStep producer fails) =
        base.threads.stepPush producer item fails point := by
      rw [QueueThreads.step, hat]
    simp only [hstep] at hqueue hcalls
    simp only [EpollBase.step, hstep]
    split
    case isTrue hpushed =>
      refine h.pushed hat hqueue hcalls (fun q hq => ?_) fun _ => Function.update_self ..
      rcases eq_or_ne q producer with rfl | hne
      · exact Function.update_self ..
      · exact (Function.update_of_ne hne ..).trans hq
    case isFalse hnot => exact h.pushed hat hqueue hcalls (fun _ hq => hq) fun hp => absurd hp hnot

theorem Inv.notify (h : Inv base) (producer : ℕ) : Inv (base.step (.notify producer)) := by
  rw [EpollBase.step]
  split
  case isTrue =>
    exact
      { queue := h.queue
        calls := h.calls
        notNull := h.notNull
        popping := h.popping
        handled := h.handled
        wakes := fun _ htask => absurd htask (Nat.succ_ne_zero _) }
  case isFalse => exact h

/-! ### The loop -/

/-- **The loop calls `pop`.** -/
theorem Inv.callPop (h : Inv base) (hidle : base.threads.popping = .idle) (taskEvents : ℕ) :
    Inv { base with
      loop := .draining
      taskEvents := taskEvents
      threads := base.threads.callPop } := by
  have hcall : base.threads.callPop =
      { base.threads with popping := .loadSequence base.threads.queue.tail } := by
    rw [QueueThreads.callPop, hidle]
  rw [hcall]
  exact
    { queue := hcall ▸ h.queue.callPop
      calls := hcall ▸ h.calls.step .pop
      notNull := h.notNull
      popping := iff_of_false (by simp) fun hne => hne rfl
      handled := h.handled
      wakes := by simp }

/-- The item at hand is an event. -/
theorem Inv.exists_event (h : Inv base) {pos : ℕ} {item : Option TaskInfoEvent}
    (hitem : base.threads.items[pos]? = some item) : ∃ event, item = some event := by
  rw [items, List.getElem?_map, Option.map_eq_some_iff] at hitem
  obtain ⟨entry, hentry, rfl⟩ := hitem
  refine Option.ne_none_iff_exists'.mp (h.notNull entry ?_)
  have hclaimed : entry ∈ base.threads.claimed.filter (·.1 = entry.1) := by
    simpa using List.mem_of_getElem? hentry
  exact (List.mem_filter.mp ((h.calls.claimed entry.1).subset hclaimed)).1

/-- **`pop` goes on.** -/
theorem Inv.goesOn (h : Inv base) {threads : QueueThreads TaskInfoEvent capacity}
    (hqueue : QueueThreads.Inv threads) (hcalls : CallsInOrder threads)
    (hcalled : threads.called = base.threads.called)
    (hpopped : threads.popped = base.threads.popped) (hbusy : threads.popping ≠ .idle) :
    Inv { base with loop := .draining, threads := threads } where
  queue := hqueue
  calls := hcalls
  notNull := fun call hcall => h.notNull call (hcalled ▸ hcall)
  popping := iff_of_false hbusy fun hne => hne rfl
  handled := hpopped.trans h.handled
  wakes := by simp

/-- **A step of `pop`.** -/
theorem Inv.drain (h : Inv base) (hfew : base.threads.Few) (hloop : base.loop = .draining) :
    Inv base.stepLoop := by
  have hqueue := h.queue.stepPop hfew
  have hcalls := h.calls.step .popStep
  have hok := h.queue.popping
  have hbusy : base.threads.popping ≠ .idle := fun hidle => h.popping.mp hidle hloop
  rw [QueueThreads.step] at hcalls
  rw [stepLoop, hloop]
  dsimp only
  generalize hpoint : base.threads.popping = point at hqueue hcalls hok hbusy ⊢
  cases point with
  | idle => exact absurd rfl hbusy
  | loadSequence pos =>
    obtain ⟨-, hpos⟩ := hok
    rw [stepPop] at hqueue hcalls ⊢
    split at hqueue
    case isTrue hzero =>
      rw [if_pos hzero] at hcalls ⊢
      exact h.goesOn hqueue hcalls rfl rfl (by simp)
    case isFalse hne =>
      rw [if_neg hne] at hcalls ⊢
      have hfreed : base.threads.freed = base.threads.queue.tail := by rw [freed, hpoint]
      have hnot : ¬ base.threads.Published base.threads.queue.tail := by
        rw [← hfreed, ← h.queue.diff_tail (h.queue.bounded hfew), hfreed, ← hpos]
        exact hne
      exact ⟨hqueue, hcalls, h.notNull, iff_of_true rfl (by simp), h.handled,
        fun _ _ hpub => absurd hpub hnot⟩
  | takeValue pos => exact h.goesOn hqueue hcalls rfl rfl (by simp [stepPop])
  | freeSlot pos item => exact h.goesOn hqueue hcalls rfl rfl (by simp [stepPop])
  | advanceTail pos item => exact h.goesOn hqueue hcalls rfl rfl (by simp [stepPop])
  | subSize item =>
    obtain ⟨-, hitem⟩ := hok
    obtain ⟨event, rfl⟩ := h.exists_event hitem
    have hhandled : base.threads.popped ++ [some event] = (base.handled ++ [event]).map some := by
      rw [List.map_append, h.handled, List.map_singleton]
    have hnext : Inv { base with
        loop := .handling event
        handled := base.handled ++ [event]
        threads := (base.threads.stepPop (.subSize (some event))).1 } :=
      ⟨hqueue, hcalls, h.notNull, iff_of_true rfl (by simp), hhandled, by simp⟩
    exact hnext

theorem Inv.stepLoop (h : Inv base) (hfew : base.threads.Few) : Inv base.stepLoop := by
  cases hloop : base.loop with
  | waiting =>
    rw [EpollBase.stepLoop, hloop]
    dsimp only
    split
    case isTrue => exact h
    case isFalse =>
      have hidle := h.popping.mpr (by simp [hloop])
      exact ⟨h.queue, h.calls, h.notNull, iff_of_true hidle (by simp), h.handled, by simp⟩
  | reading =>
    rw [EpollBase.stepLoop, hloop]
    exact h.callPop (h.popping.mpr (by simp [hloop])) 0
  | draining => exact h.drain hfew hloop
  | handling event =>
    rw [EpollBase.stepLoop, hloop]
    exact h.callPop (h.popping.mpr (by simp [hloop])) base.taskEvents

/-- **The step lemma.** -/
theorem Inv.step (h : Inv base) (hfew : base.threads.Few) (event : EpollEvent) :
    Inv (base.step event) := by
  cases event with
  | post producer event =>
    rw [EpollBase.step]
    split
    case isTrue => exact h
    case isFalse => exact h.post producer event
  | postStep producer fails => exact h.postStep hfew producer fails
  | notify producer => exact h.notify producer
  | loop => exact h.stepLoop hfew

/-! ## The loop comes to rest -/

/-- What a step of the loop leaves alone. -/
structure LoopFrame (base base' : EpollBase capacity) : Prop where
  claimed : base'.threads.claimed = base.threads.claimed
  pushing : base'.threads.pushing = base.threads.pushing
  posting : base'.posting = base.posting

theorem LoopFrame.posts_iff {base' : EpollBase capacity} (h : LoopFrame base base') :
    base'.Posts producer ↔ base.Posts producer := by
  simp only [Posts, Notifies, Holds, h.posting, h.pushing]

theorem stepPop_pushing {τ : Type*} (s : QueueThreads τ capacity) (point : PopPoint τ) :
    (s.stepPop point).1.pushing = s.pushing := by
  match point with
  | .idle => rfl
  | .loadSequence pos =>
    rw [stepPop]
    split
    · rfl
    · rfl
  | .takeValue pos => rfl
  | .freeSlot pos item => rfl
  | .advanceTail pos item => rfl
  | .subSize item => rfl

theorem callPop_frame {τ : Type*} (s : QueueThreads τ capacity) :
    s.callPop.claimed = s.claimed ∧ s.callPop.pushing = s.pushing := by
  rw [callPop]
  split
  · exact ⟨rfl, rfl⟩
  · exact ⟨rfl, rfl⟩

theorem loopFrame_stepLoop (base : EpollBase capacity) : LoopFrame base base.stepLoop := by
  rw [stepLoop]
  split
  · split
    · exact ⟨rfl, rfl, rfl⟩
    · exact ⟨rfl, rfl, rfl⟩
  · exact ⟨(callPop_frame _).1, (callPop_frame _).2, rfl⟩
  · have hclaimed := (base.threads.grows_stepPop base.threads.popping).1
    have hpushing := stepPop_pushing base.threads base.threads.popping
    simp only
    split
    · exact ⟨hclaimed, hpushing, rfl⟩
    · exact ⟨hclaimed, hpushing, rfl⟩
    · exact ⟨hclaimed, hpushing, rfl⟩
  · exact ⟨(callPop_frame _).1, (callPop_frame _).2, rfl⟩

/-- What is left of a call of `pop`. -/
def popRank {τ : Type*} : PopPoint τ → ℕ
  | .idle => 8
  | .loadSequence _ => 8
  | .takeValue _ => 7
  | .freeSlot _ _ => 6
  | .advanceTail _ _ => 5
  | .subSize _ => 4

/-- What is left of a counter that was not read. -/
def unreadRank (taskEvents : ℕ) : ℕ := if taskEvents = 0 then 0 else 20

/-- The steps that are left to the loop, if nothing is posted. -/
def rank (base : EpollBase capacity) : ℕ :=
  10 * (base.threads.claimed.length - base.threads.popped.length) +
    match base.loop with
    | .waiting => if base.taskEvents = 0 then 0 else 15
    | .reading => 14
    | .draining => popRank base.threads.popping + unreadRank base.taskEvents
    | .handling _ => 9 + unreadRank base.taskEvents

theorem Inv.rank_callPop (h : Inv base) (hloop : base.loop ≠ .draining) (taskEvents : ℕ) :
    rank { base with
        loop := .draining, taskEvents := taskEvents, threads := base.threads.callPop } =
      10 * (base.threads.claimed.length - base.threads.popped.length) +
        (8 + unreadRank taskEvents) := by
  have hcall : base.threads.callPop =
      { base.threads with popping := .loadSequence base.threads.queue.tail } := by
    rw [QueueThreads.callPop, h.popping.mpr hloop]
  rw [rank, hcall, popRank]

theorem Inv.rank_drain (h : Inv base) (hloop : base.loop = .draining) :
    rank base.stepLoop < rank base := by
  have hok := h.queue.popping
  have hbusy : base.threads.popping ≠ .idle := fun hidle => h.popping.mp hidle hloop
  rw [EpollBase.stepLoop, hloop]
  dsimp only
  rw [rank, rank, hloop]
  generalize hpoint : base.threads.popping = point at hok hbusy ⊢
  match point, hok with
  | .idle, _ => exact absurd rfl hbusy
  | .loadSequence pos, _ =>
    rw [stepPop]
    by_cases hzero : MPSCQueue.diff (base.threads.queue.slot pos).sequence
        (MPSCQueue.toSize (pos + 1)) = 0
    · rw [if_pos hzero]
      simp only [popRank]
      omega
    · rw [if_neg hzero]
      simp only [popRank, unreadRank]
      split <;> omega
  | .takeValue pos, _ => simp only [stepPop, popRank]; omega
  | .freeSlot pos item, _ => simp only [stepPop, popRank]; omega
  | .advanceTail pos item, _ => simp only [stepPop, popRank]; omega
  | .subSize item, ⟨_, hitem⟩ =>
    obtain ⟨event, rfl⟩ := h.exists_event hitem
    have hlt : base.threads.popped.length < base.threads.claimed.length := by
      have hlt := (List.getElem?_eq_some_iff.mp hitem).1
      rwa [items, List.length_map] at hlt
    simp only [stepPop, popRank, List.length_append, List.length_singleton]
    omega

/-- **A step of the loop** brings it nearer to its rest. -/
theorem Inv.rank_stepLoop (h : Inv base) (hrest : base.loop = .waiting → base.taskEvents ≠ 0) :
    rank base.stepLoop < rank base := by
  cases hloop : base.loop with
  | waiting =>
    rw [EpollBase.stepLoop, hloop]
    dsimp only
    rw [if_neg (hrest hloop), rank, rank, hloop]
    dsimp only
    rw [if_neg (hrest hloop)]
    omega
  | reading =>
    rw [EpollBase.stepLoop, hloop]
    dsimp only
    rw [h.rank_callPop (by rw [hloop]; nofun), rank, hloop, unreadRank, if_pos rfl]
    dsimp only
    omega
  | draining => exact h.rank_drain hloop
  | handling event =>
    rw [EpollBase.stepLoop, hloop]
    dsimp only
    rw [h.rank_callPop (by rw [hloop]; nofun), rank, hloop]
    dsimp only
    omega

/-! ## What holds in every run -/

/-- Everything that was pushed has been handled, in order, and the loop waits. -/
structure AtRest (base : EpollBase capacity) : Prop where
  loop : base.loop = .waiting
  taskEvents : base.taskEvents = 0
  empty : base.threads.queue.head = base.threads.queue.tail
  handled : base.handled.map some = base.threads.items

/-- What is asked of an event base after any steps. -/
structure WakesUp (base : EpollBase capacity) : Prop where
  /-- The loop waits with nothing announced and nothing on its way: it has handled everything. -/
  rests : base.loop = .waiting → base.taskEvents = 0 → (∀ producer, ¬ base.Posts producer) →
    base.AtRest
  /-- The loop waits with nothing announced: the next event is not there, or about to be. -/
  next : base.loop = .waiting → base.taskEvents = 0 →
    base.threads.Published base.threads.queue.tail → ∃ producer, base.Notifies producer
  /-- Events are handled once, in the order in which they were pushed. -/
  handled : base.handled.map some <+: base.threads.items
  /-- The loop comes to rest, if nothing is posted any more. -/
  settles : 2 * base.threads.claimed.length < 2 ^ 63 → (∀ producer, ¬ base.Posts producer) →
    ∃ n, AtRest (Run.exec step base (List.replicate n .loop))

theorem Inv.rests (h : Inv base) (hloop : base.loop = .waiting) (htask : base.taskEvents = 0)
    (hposts : ∀ producer, ¬ base.Posts producer) : base.AtRest := by
  have hidle : base.threads.popping = .idle := h.popping.mpr (by rw [hloop]; nofun)
  have hlength : base.threads.popped.length = base.threads.queue.tail := by
    have hok := h.queue.popping
    rwa [hidle] at hok
  have htail : base.threads.queue.tail = base.threads.claimed.length := by
    have hle := h.queue.popped.length_le
    rw [items, List.length_map, hlength] at hle
    refine Nat.le_antisymm hle (Nat.not_lt.mp fun hlt => ?_)
    -- the next event would be published, and its producer would notify
    have hpub : base.threads.Published base.threads.queue.tail :=
      ⟨hlt, fun q hq => hposts q (.inr ⟨_, hq⟩)⟩
    obtain ⟨q, hq⟩ := h.wakes hloop htask hpub
    exact hposts q (.inl hq)
  refine ⟨hloop, htask, h.queue.head.trans htail.symm, ?_⟩
  rw [← h.handled]
  refine h.queue.popped.eq_of_length ?_
  rw [hlength, htail, items, List.length_map]

/-- **The loop comes to rest**, by induction on the steps it has left. -/
theorem Inv.settles (hcapacity : 1 < capacity) (hobject : capacity * 64 < 2 ^ 63) {n : ℕ}
    (h : Inv base) (hrank : base.rank ≤ n) (hfew : 2 * base.threads.claimed.length < 2 ^ 63)
    (hposts : ∀ producer, ¬ base.Posts producer) :
    ∃ m, AtRest (Run.exec EpollBase.step base (List.replicate m .loop)) ∧
      (Run.exec EpollBase.step base (List.replicate m .loop)).threads.claimed =
        base.threads.claimed := by
  induction n generalizing base with
  | zero =>
    by_cases hrest : base.loop = .waiting ∧ base.taskEvents = 0
    · exact ⟨0, h.rests hrest.1 hrest.2 hposts, rfl⟩
    · have hlt := h.rank_stepLoop fun hloop htask => hrest ⟨hloop, htask⟩
      omega
  | succ n ih =>
    by_cases hrest : base.loop = .waiting ∧ base.taskEvents = 0
    · exact ⟨0, h.rests hrest.1 hrest.2 hposts, rfl⟩
    · have hlt := h.rank_stepLoop fun hloop htask => hrest ⟨hloop, htask⟩
      have hframe := loopFrame_stepLoop base
      have hoperations : base.threads.operations < 2 ^ 63 := by
        have hle := h.queue.popped.length_le
        rw [items, List.length_map] at hle
        rw [operations]
        omega
      obtain ⟨m, hrests, hclaimed⟩ := ih (h.stepLoop ⟨hcapacity, hobject, hoperations⟩)
        (by omega) (by rwa [hframe.claimed]) fun q hq => hposts q (hframe.posts_iff.mp hq)
      exact ⟨m + 1, hrests, hclaimed.trans hframe.claimed⟩

theorem Inv.wakesUp (hcapacity : 1 < capacity) (hobject : capacity * 64 < 2 ^ 63)
    (h : Inv base) : WakesUp base where
  rests := h.rests
  next := h.wakes
  handled := h.handled ▸ h.queue.popped
  settles := by
    intro hfew hposts
    obtain ⟨m, hrests, -⟩ := h.settles hcapacity hobject le_rfl hfew hposts
    exact ⟨m, hrests⟩

/-- **No wake-up is lost**, for any producers and any order of the steps. -/
theorem wakesUp_of_run (hcapacity : 1 < capacity) (hobject : capacity * 64 < 2 ^ 63)
    (name : String) (events : List EpollEvent)
    (hfew : (Run.exec step (start name : EpollBase capacity) events).threads.operations < 2 ^ 63) :
    WakesUp (Run.exec step (start name : EpollBase capacity) events) := by
  have hstep : ∀ (base : EpollBase capacity) (event : EpollEvent),
      (base.threads.operations < 2 ^ 63 → Inv base) →
      (base.step event).threads.operations < 2 ^ 63 → Inv (base.step event) := by
    intro base event h hlt
    have hle : base.threads.operations ≤ (base.step event).threads.operations := by
      rcases base.threads_step event with hsame | ⟨step, hsame⟩
      · exact le_of_eq (congrArg operations hsame.symm)
      · exact hsame ▸ base.threads.operations_le_step step
    have hfew : base.threads.operations < 2 ^ 63 := hle.trans_lt hlt
    exact (h hfew).step ⟨hcapacity, hobject, hfew⟩ event
  have hinv : Inv (Run.exec step (start name : EpollBase capacity) events) :=
    Run.exec_of_forall hstep (fun _ => inv_start name) events hfew
  exact hinv.wakesUp hcapacity hobject

/-- The drain stops at a slot whose producer has claimed it and not published, while the event
behind it has been announced already. -/
def stoppedRun : List EpollEvent :=
  [.post 0 ⟨.run, 7⟩, .post 1 ⟨.run, 8⟩] ++ List.replicate 3 (.postStep 0 false) ++
    List.replicate 6 (.postStep 1 false) ++ [.notify 1] ++ List.replicate 3 .loop ++
    List.replicate 3 (.postStep 0 false) ++ [.notify 0] ++ List.replicate 14 .loop

theorem wakesUp_stoppedRun : WakesUp (Run.exec step (start "n" : EpollBase 200) stoppedRun) :=
  wakesUp_of_run (by decide) (by decide) "n" stoppedRun (by decide)

end EpollBase

end TradingEngine
