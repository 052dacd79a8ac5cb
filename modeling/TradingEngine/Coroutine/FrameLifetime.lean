import TradingEngine.Coroutine.Coroutines

/-!
# Coroutine/FrameLifetime — every frame is destroyed once

Seen from one frame, a step of the program is at most one `Frame.Step`: the frames of a program are
read off its lists and queues, and each step updates one of them, or two when a child is awaited or
returns.  With `Located`, which says in which queue the events of a promise are, this gives the
invariant of the program.
-/

namespace TradingEngine

namespace Coroutine

open Handles Run

/-- The promise that an unfinished child is to complete. -/
def Promise.completes (promise : Promise) : Option ℕ :=
  if promise.point = .done then none else promise.suspendingPromise

namespace Coroutines

/-- The unfinished children, by the promises that they are to complete. -/
def children (s : Coroutines) : List (Option ℕ) :=
  (List.range s.count).map fun p => (s.promise p).completes

/-- The `FutureValue`s and unfinished children that are to complete a promise. -/
def waiting (s : Coroutines) (p : ℕ) : ℕ := holders s.values p + holders s.children p

/-- The events of a promise in the queue of an event base. -/
def eventsAt (s : Coroutines) (p base : ℕ) : List TaskType :=
  ((s.queue base).filter (·.promise = p)).map (·.type)

/-- What an event base does with a promise. -/
def activityAt (s : Coroutines) (p base : ℕ) : Option Activity :=
  (s.activity base).bind fun a => if a.1 = p then some a.2 else none

/-- **A frame of the program.** -/
def frame (s : Coroutines) (p : ℕ) : Frame where
  promise := s.promise p
  tasks := holders s.tasks p
  waiting := s.waiting p
  events := (s.promise p).eventBase.elim [] (s.eventsAt p)
  activity := (s.promise p).eventBase.bind (s.activityAt p)

/-- What is in a queue or is being handled belongs to the event base of the promise, and so does a
child to that of its parent. -/
structure Located (s : Coroutines) : Prop where
  posted : ∀ base, ∀ event ∈ s.queue base, (s.promise event.promise).eventBase = some base
  busy : ∀ base p activity, s.activity base = some (p, activity) →
    (s.promise p).eventBase = some base
  parent : ∀ child p, (s.promise child).suspendingPromise = some p →
    ∃ base, (s.promise child).eventBase = some base ∧ (s.promise p).eventBase = some base

/-- **The invariant of a program.** -/
structure Inv (s : Coroutines) : Prop extends Located s where
  ok : ∀ p, p < s.count → (s.frame p).Ok
  unborn : ∀ p, s.count ≤ p → s.frame p = .unborn

/-! ## Frames under the writes of a step -/

section Writes

variable {s : Coroutines} {p q base : ℕ} {promise : Promise} {event : TaskInfoEvent}

theorem eventsAt_push (s : Coroutines) (base : ℕ) (event : TaskInfoEvent) (q b : ℕ) :
    (s.push base event).eventsAt q b =
      s.eventsAt q b ++ if b = base ∧ event.promise = q then [event.type] else [] := by
  rw [eventsAt, push, eventsAt]
  dsimp only
  rcases eq_or_ne b base with rfl | hne
  · rw [Function.update_self, List.filter_append, List.map_append]
    by_cases hpromise : event.promise = q <;> simp [hpromise]
  · rw [Function.update_of_ne hne, if_neg fun h => hne h.1, List.append_nil]

theorem frame_push (hbase : (s.promise p).eventBase = some base) (type : TaskType) :
    (s.push base ⟨type, p⟩).frame = Function.update s.frame p
      { s.frame p with events := (s.frame p).events ++ [type] } := by
  funext q
  rcases eq_or_ne q p with rfl | hne
  · have hevents := eventsAt_push s base ⟨type, q⟩ q base
    rw [if_pos ⟨rfl, rfl⟩] at hevents
    rw [Function.update_self, frame, frame]
    change Frame.mk _ _ _ ((s.promise q).eventBase.elim _ _) _ = _
    rw [hbase, Option.elim_some, Option.elim_some, hevents]
    simp only [push, waiting, children, hbase]
    rfl
  · have hevents : (s.push base ⟨type, p⟩).eventsAt q = s.eventsAt q := by
      funext b
      rw [eventsAt_push, if_neg fun h => hne h.2.symm, List.append_nil]
    rw [Function.update_of_ne hne, frame, hevents]
    rfl

theorem activityAt_goOn (s : Coroutines) (base : ℕ) (activity : Option (ℕ × Activity)) (q b : ℕ) :
    (s.goOn base activity).activityAt q b =
      if b = base then activity.bind fun a => if a.1 = q then some a.2 else none
      else s.activityAt q b := by
  rw [activityAt, goOn, activityAt]
  dsimp only
  rcases eq_or_ne b base with rfl | hne
  · rw [Function.update_self, if_pos rfl]
  · rw [Function.update_of_ne hne, if_neg hne]

/-- A base that is idle, or busy with a promise, goes on with that. -/
theorem frame_goOn (hp : (s.promise p).eventBase = some base)
    (hbefore : ∀ a, s.activity base = some a → a.1 = p) (activity : Option Activity) :
    (s.goOn base (activity.map (p, ·))).frame =
      Function.update s.frame p { s.frame p with activity := activity } := by
  funext q
  rcases eq_or_ne q p with rfl | hne
  · have hactivity := activityAt_goOn s base (activity.map (q, ·)) q base
    have hmap : (activity.map (q, ·)).bind (fun a => if a.1 = q then some a.2 else none) =
        activity := by cases activity <;> simp
    rw [if_pos rfl, hmap] at hactivity
    have hbind : ((s.goOn base (activity.map (q, ·))).promise q).eventBase.bind
        ((s.goOn base (activity.map (q, ·))).activityAt q) = activity := by
      change (s.promise q).eventBase.bind _ = _
      rw [hp, Option.bind_some, hactivity]
    rw [Function.update_self, frame, hbind]
    rfl
  · have hactivity : (s.goOn base (activity.map (p, ·))).activityAt q = s.activityAt q := by
      funext b
      rw [activityAt_goOn]
      split
      case isTrue heq =>
        subst heq
        have hnone : s.activityAt q b = none := by
          rw [activityAt, Option.bind_eq_none_iff]
          exact fun a ha => if_neg fun heq => hne (heq.symm.trans (hbefore a ha))
        rw [hnone]
        cases activity <;> simp [hne.symm]
      case isFalse => rfl
    rw [Function.update_of_ne hne, frame, hactivity]
    rfl

theorem children_write (hp : p < s.count) (promise : Promise) (q : ℕ) :
    holders (s.write p promise).children q + weight (s.promise p).completes q =
      holders s.children q + weight promise.completes q := by
  have hset : (s.write p promise).children = s.children.set p promise.completes := by
    refine List.ext_getElem (by simp [children, write]) fun i hi _ => ?_
    rw [List.getElem_set]
    simp only [children, write, List.getElem_map, List.getElem_range, Function.update_apply]
    rcases eq_or_ne i p with rfl | hne
    · simp
    · simp [hne, hne.symm]
  have hat : s.children[p]? = some (s.promise p).completes := by
    simp [children, hp]
  rw [hset]
  exact holders_set hat _ q

theorem children_write_of_eq (h : promise.completes = (s.promise p).completes) :
    (s.write p promise).children = s.children := by
  refine List.map_congr_left fun i _ => ?_
  rw [write]
  dsimp only
  rcases eq_or_ne i p with rfl | hne
  · rw [Function.update_self, h]
  · rw [Function.update_of_ne hne]

/-- **A promise is written** that stays on its event base. -/
theorem frame_write_waiting (hbase : promise.eventBase = (s.promise p).eventBase) :
    (s.write p promise).frame = fun q =>
      { Function.update s.frame p { s.frame p with promise := promise } q with
        waiting := (s.write p promise).waiting q } := by
  funext q
  rcases eq_or_ne q p with rfl | hne
  · have hself : (s.write q promise).promise q = promise := Function.update_self ..
    rw [Function.update_self, frame, hself, hbase]
    rfl
  · have hother : (s.write p promise).promise q = s.promise q := Function.update_of_ne hne ..
    rw [Function.update_of_ne hne, frame, hother]
    rfl

/-- One that is to complete what it was to complete. -/
theorem waiting_write (hcompletes : promise.completes = (s.promise p).completes) (q : ℕ) :
    (s.write p promise).waiting q = s.waiting q := by
  rw [waiting, children_write_of_eq hcompletes]
  rfl

theorem update_waiting (hcompletes : promise.completes = (s.promise p).completes) :
    (fun q => { Function.update s.frame p { s.frame p with promise := promise } q with
      waiting := (s.write p promise).waiting q }) =
      Function.update s.frame p { s.frame p with promise := promise } := by
  funext q
  rw [waiting_write hcompletes]
  rcases eq_or_ne q p with rfl | hne
  · rw [Function.update_self]
    rfl
  · rw [Function.update_of_ne hne]
    rfl

theorem frame_write (hbase : promise.eventBase = (s.promise p).eventBase)
    (hcompletes : promise.completes = (s.promise p).completes) :
    (s.write p promise).frame =
      Function.update s.frame p { s.frame p with promise := promise } :=
  (frame_write_waiting hbase).trans (update_waiting hcompletes)

/-- The next event of a queue is taken out of it. -/
theorem frame_take {rest : List TaskInfoEvent} (hqueue : s.queue base = event :: rest)
    (hbase : (s.promise event.promise).eventBase = some base) :
    ∃ events, (s.frame event.promise).events = event.type :: events ∧
      frame { s with queue := Function.update s.queue base rest } =
        Function.update s.frame event.promise
          { s.frame event.promise with events := events } := by
  refine ⟨(rest.filter (·.promise = event.promise)).map (·.type), ?_, ?_⟩
  · rw [frame]
    dsimp only
    rw [hbase, Option.elim_some, eventsAt, hqueue, List.filter_cons_of_pos (by simp),
      List.map_cons]
  · have hself : (Function.update s.queue base rest) base = rest := Function.update_self ..
    funext q
    rcases eq_or_ne q event.promise with rfl | hne
    · have helim : (s.promise event.promise).eventBase.elim []
          (eventsAt { s with queue := Function.update s.queue base rest } event.promise) =
          (rest.filter (·.promise = event.promise)).map (·.type) := by
        rw [hbase, Option.elim_some, eventsAt]
        dsimp only
        rw [hself]
      rw [Function.update_self, frame]
      dsimp only
      rw [helim]
      rfl
    · have hevents : eventsAt { s with queue := Function.update s.queue base rest } q =
          s.eventsAt q := by
        funext b
        rw [eventsAt, eventsAt]
        dsimp only
        rcases eq_or_ne b base with rfl | hb
        · rw [hself, hqueue, List.filter_cons_of_neg (by simp [hne.symm])]
        · rw [Function.update_of_ne hb]
      rw [Function.update_of_ne hne, frame, hevents]
      rfl

/-- **A promise gets its event base**, and is perhaps to complete another one. -/
theorem frame_start (h : s.Located) (hp : p < s.count) (hnone : (s.promise p).eventBase = none)
    (promise : Promise) (hbase : promise.eventBase = some base) :
    (s.write p promise).frame = fun q =>
      { Function.update s.frame p { s.frame p with promise := promise } q with
        waiting := (s.write p promise).waiting q } := by
  funext q
  rcases eq_or_ne q p with rfl | hne
  · have hself : (s.write q promise).promise q = promise := Function.update_self ..
    have hevents : s.eventsAt q base = [] := by
      rw [eventsAt, List.map_eq_nil_iff, List.filter_eq_nil_iff]
      intro event hevent
      have hposted := h.posted base event hevent
      simp only [decide_eq_true_eq]
      rintro rfl
      rw [hnone] at hposted
      cases hposted
    have hactivity : s.activityAt q base = none := by
      rw [activityAt, Option.bind_eq_none_iff]
      rintro ⟨q', activity⟩ ha
      refine if_neg ?_
      rintro rfl
      have hbusy := h.busy base q' activity ha
      rw [hnone] at hbusy
      cases hbusy
    rw [Function.update_self, frame, hself, hbase]
    dsimp only
    rw [Option.elim_some, Option.bind_some]
    change Frame.mk _ _ _ (s.eventsAt q base) (s.activityAt q base) = _
    rw [hevents, hactivity, frame, hnone]
    rfl
  · have hother : (s.write p promise).promise q = s.promise q := Function.update_of_ne hne ..
    rw [Function.update_of_ne hne, frame, hother]
    rfl

theorem frame_destroyFrame (s : Coroutines) (p : ℕ) :
    (s.destroyFrame p).frame = Function.update s.frame p
      { s.frame p with
        promise := { s.promise p with destroyed := (s.promise p).destroyed + 1 } } :=
  frame_write rfl rfl

/-- A wrapper lets go. -/
theorem frame_dropTask {i : ℕ} (hi : s.task i = some p) :
    ∃ n, (s.frame p).tasks = n + 1 ∧ (s.clearTask i).frame =
      Function.update s.frame p { s.frame p with tasks := n } := by
  have hset : ∀ q, holders (s.tasks.set i none) q + weight (some p) q =
      holders s.tasks q + weight none q := holders_set (getElem?_of_target hi) none
  refine ⟨holders (s.tasks.set i none) p, ?_, ?_⟩
  · have hp := hset p
    rw [weight_self, weight_none] at hp
    exact hp.symm
  · funext q
    rcases eq_or_ne q p with rfl | hne
    · rw [Function.update_self]
      rfl
    · have hq := hset q
      rw [weight_of_ne hne.symm, weight_none, Nat.add_zero, Nat.add_zero] at hq
      rw [Function.update_of_ne hne, frame, clearTask]
      dsimp only
      rw [hq]
      rfl

/-- A `FutureValue` lets go. -/
theorem frame_dropValue {i : ℕ} (hi : s.value i = some p) :
    ∃ n, (s.frame p).waiting = n + 1 ∧ (s.clearValue i).frame =
      Function.update s.frame p { s.frame p with waiting := n } := by
  have hset : ∀ q, holders (s.values.set i none) q + weight (some p) q =
      holders s.values q + weight none q := holders_set (getElem?_of_target hi) none
  refine ⟨holders (s.values.set i none) p + holders s.children p, ?_, ?_⟩
  · have hp := hset p
    rw [weight_self, weight_none] at hp
    change holders s.values p + holders s.children p = _
    omega
  · funext q
    rcases eq_or_ne q p with rfl | hne
    · rw [Function.update_self]
      rfl
    · have hq := hset q
      rw [weight_of_ne hne.symm, weight_none, Nat.add_zero, Nat.add_zero] at hq
      have hwaiting : (s.clearValue i).waiting q = s.waiting q := by
        rw [waiting, clearValue, waiting]
        dsimp only
        rw [hq]
        rfl
      rw [Function.update_of_ne hne, frame, hwaiting]
      rfl

/-- Wrappers that change places. -/
theorem frame_tasks {tasks : List (Option ℕ)} (h : ∀ q, holders tasks q = holders s.tasks q) :
    frame { s with tasks := tasks } = s.frame := by
  funext q
  rw [frame]
  dsimp only
  rw [h]
  rfl

/-- One more is to complete a promise. -/
theorem update_weight (frames : ℕ → Frame) (p : ℕ) :
    (fun q => { frames q with waiting := (frames q).waiting + weight (some p) q }) =
      Function.update frames p { frames p with waiting := (frames p).waiting + 1 } := by
  funext q
  rcases eq_or_ne q p with rfl | hne
  · rw [Function.update_self, weight_self]
  · rw [Function.update_of_ne hne, weight_of_ne hne.symm]
    rfl

/-- `FutureValue`s that change places. -/
theorem frame_values {values : List (Option ℕ)}
    (h : ∀ q, holders values q = holders s.values q) :
    frame { s with values := values } = s.frame := by
  funext q
  have hwaiting : waiting { s with values := values } q = s.waiting q := by
    rw [waiting, waiting]
    dsimp only
    rw [h]
    rfl
  rw [frame, hwaiting]
  rfl

/-- A promise is written, and its base goes on. -/
theorem frame_goOn_write (promise : Promise) (hp : (s.promise p).eventBase = some base)
    (hbefore : ∀ a, s.activity base = some a → a.1 = p)
    (hbase : promise.eventBase = (s.promise p).eventBase)
    (hcompletes : promise.completes = (s.promise p).completes) (activity : Option Activity) :
    ((s.write p promise).goOn base (activity.map (p, ·))).frame =
      Function.update s.frame p
        { s.frame p with promise := promise, activity := activity } := by
  have hself : ((s.write p promise).promise p).eventBase = some base := by
    change (Function.update s.promise p promise p).eventBase = _
    rw [Function.update_self, hbase, hp]
  rw [frame_goOn hself hbefore, frame_write hbase hcompletes, Function.update_self,
    Function.update_idem]

end Writes

/-! ## Where events and children are -/

section Located

variable {s : Coroutines} {p q base : ℕ} {promise : Promise} {event : TaskInfoEvent}

theorem Located.push (h : s.Located) (hbase : (s.promise event.promise).eventBase = some base) :
    (s.push base event).Located := by
  refine ⟨fun b e he => ?_, h.busy, h.parent⟩
  rw [Coroutines.push] at he
  dsimp only at he
  rcases eq_or_ne b base with rfl | hne
  · rw [Function.update_self] at he
    rcases List.mem_append.mp he with hold | hnew
    · exact h.posted b e hold
    · obtain rfl := List.mem_singleton.mp hnew
      exact hbase
  · rw [Function.update_of_ne hne] at he
    exact h.posted b e he

theorem Located.take {rest : List TaskInfoEvent} (h : s.Located)
    (hqueue : s.queue base = event :: rest) :
    Located { s with queue := Function.update s.queue base rest } := by
  refine ⟨fun b e he => ?_, h.busy, h.parent⟩
  dsimp only at he
  rcases eq_or_ne b base with rfl | hne
  · rw [Function.update_self] at he
    exact h.posted b e (hqueue ▸ List.mem_cons_of_mem _ he)
  · rw [Function.update_of_ne hne] at he
    exact h.posted b e he

theorem Located.goOn (h : s.Located) (hp : (s.promise p).eventBase = some base)
    (activity : Option Activity) : (s.goOn base (activity.map (p, ·))).Located := by
  refine ⟨h.posted, fun b q a hq => ?_, h.parent⟩
  rw [Coroutines.goOn] at hq
  dsimp only at hq
  rcases eq_or_ne b base with rfl | hne
  · rw [Function.update_self, Option.map_eq_some_iff] at hq
    obtain ⟨a', -, heq⟩ := hq
    obtain ⟨rfl, -⟩ := Prod.mk.inj heq
    exact hp
  · rw [Function.update_of_ne hne] at hq
    exact h.busy b q a hq

/-- A promise is written; a base that it has is kept. -/
theorem Located.write (h : s.Located)
    (hbase : ∀ b, (s.promise p).eventBase = some b → promise.eventBase = some b)
    (hparent : ∀ parent, promise.suspendingPromise = some parent →
      (s.promise p).suspendingPromise = some parent ∨
        ∃ b, promise.eventBase = some b ∧ (s.promise parent).eventBase = some b) :
    (s.write p promise).Located := by
  have hkeep : ∀ q b, (s.promise q).eventBase = some b →
      ((s.write p promise).promise q).eventBase = some b := by
    intro q b hq
    rw [Coroutines.write]
    dsimp only
    rcases eq_or_ne q p with rfl | hne
    · rw [Function.update_self]
      exact hbase b hq
    · rwa [Function.update_of_ne hne]
  refine ⟨fun b e he => hkeep _ b (h.posted b e he), fun b q a hq => hkeep q b (h.busy b q a hq),
    fun child parent hchild => ?_⟩
  rcases eq_or_ne child p with rfl | hne
  · have hself : (s.write child promise).promise child = promise := Function.update_self ..
    rw [hself] at hchild ⊢
    rcases hparent parent hchild with hold | ⟨b, hb, hparentBase⟩
    · obtain ⟨b, hb, hparentBase⟩ := h.parent child parent hold
      exact ⟨b, hbase b hb, hkeep parent b hparentBase⟩
    · exact ⟨b, hb, hkeep parent b hparentBase⟩
  · have hother : (s.write p promise).promise child = s.promise child :=
      Function.update_of_ne hne ..
    rw [hother] at hchild ⊢
    obtain ⟨b, hb, hparentBase⟩ := h.parent child parent hchild
    exact ⟨b, hb, hkeep parent b hparentBase⟩

theorem Located.write_of_eq (h : s.Located) (hbase : promise.eventBase = (s.promise p).eventBase)
    (hparent : promise.suspendingPromise = (s.promise p).suspendingPromise) :
    (s.write p promise).Located :=
  h.write (fun _ hb => hbase.trans hb) fun _ hp => .inl (hparent.symm.trans hp)

end Located

/-! ## What a step is, seen from each frame -/

/-- What is asked of an effect, in the state before the step: what is used is not destroyed, what is
resumed is not done and was not destroyed while suspended, and what is destroyed waits for nothing
and does not run. -/
def Sound (s : Coroutines) : Effect → Prop
  | .used p => (s.promise p).destroyed = 0
  | .resumed p => (s.promise p).destroyed = 0 ∧ ((s.promise p).point = .initial ∨
    (s.promise p).point = .suspended ∧ (s.promise p).forceDestroy = false)
  | .destroyed p => (s.promise p).destroyed = 0 ∧ (s.promise p).hasSuspendValue = false ∧
    (s.promise p).point ≠ .running
  | .nullEventBase _ => False

/-- The steps that do what a `destroy()` before them looks at. -/
def Asks (s : Coroutines) (operation : Operation) (p : ℕ) : Frame.Kind → Prop
  | .destroy => ∃ i, operation = .destroy i ∧ s.task i = some p
  | .suspend n => n = 0 → ∃ base, operation = .awaitFuture base false ∧ s.runningOn base = some p
  | .coReturn => ∃ base, operation = .coReturn base ∧ s.runningOn base = some p
  | .other => True

/-- **A step, seen from each frame.** -/
structure Moves (s : Coroutines) (operation : Operation) (r : Coroutines × List Effect) :
    Prop where
  count : r.1.count = s.count
  located : r.1.Located
  frames : ∀ p, r.1.frame p = s.frame p ∨ p < s.count ∧
    ∃ kind, s.Asks operation p kind ∧ Frame.Step kind (s.frame p) (r.1.frame p)
  sound : ∀ effect ∈ r.2, s.Sound effect

section Moves

variable {s t : Coroutines} {p i base : ℕ} {operation : Operation} {effects : List Effect}

theorem Moves.stay (hcount : t.count = s.count) (hlocated : t.Located) (hframe : t.frame = s.frame)
    (hsound : ∀ effect ∈ effects, s.Sound effect) : Moves s operation (t, effects) :=
  ⟨hcount, hlocated, fun p => .inl (congrFun hframe p), hsound⟩

theorem Moves.refl (h : s.Located) : Moves s operation (s, []) :=
  .stay rfl h rfl fun _ heffect => absurd heffect List.not_mem_nil

theorem Moves.one {f : Frame} {kind : Frame.Kind} (hp : p < s.count) (hcount : t.count = s.count)
    (hlocated : t.Located) (hframe : t.frame = Function.update s.frame p f)
    (hstep : Frame.Step kind (s.frame p) f) (hasks : s.Asks operation p kind)
    (hsound : ∀ effect ∈ effects, s.Sound effect) : Moves s operation (t, effects) := by
  refine ⟨hcount, hlocated, fun q => ?_, hsound⟩
  dsimp only
  rw [hframe]
  rcases eq_or_ne q p with rfl | hne
  · rw [Function.update_self]
    exact .inr ⟨hp, kind, hasks, hstep⟩
  · exact .inl (Function.update_of_ne hne ..)

/-- A frame that something refers to is allocated, and not destroyed. -/
theorem Inv.alive_of_task (h : s.Inv) (hi : s.task i = some p) :
    p < s.count ∧ (s.frame p).Alive := by
  obtain ⟨n, hn, -⟩ := frame_dropTask hi
  have hlt : p < s.count := by
    by_contra hge
    rw [h.unborn p (Nat.le_of_not_lt hge)] at hn
    cases hn
  refine ⟨hlt, (h.ok p hlt).resolve_right fun hgone => ?_⟩
  rw [hgone.tasks] at hn
  cases hn

theorem Inv.alive_of_value (h : s.Inv) (hi : s.value i = some p) :
    p < s.count ∧ (s.frame p).Alive := by
  obtain ⟨n, hn, -⟩ := frame_dropValue hi
  have hlt : p < s.count := by
    by_contra hge
    rw [h.unborn p (Nat.le_of_not_lt hge)] at hn
    cases hn
  refine ⟨hlt, (h.ok p hlt).resolve_right fun hgone => ?_⟩
  rw [hgone.waiting] at hn
  cases hn

theorem post_of_base {owner : ℕ} (hbase : (s.promise owner).eventBase = some base)
    (event : TaskInfoEvent) : s.post owner event = (s.push base event, [.used owner]) := by
  rw [post, hbase]

/-- **`check_release`.** -/
theorem Inv.checkRelease (h : s.Inv) (hi : s.task i = some p) :
    Moves s operation (s.checkRelease i) := by
  obtain ⟨hp, halive⟩ := h.alive_of_task hi
  obtain ⟨n, htasks, hframe⟩ := frame_dropTask hi
  have hlocated : (s.clearTask i).Located := ⟨h.posted, h.busy, h.parent⟩
  have hself : (s.clearTask i).frame p = { s.frame p with tasks := n } := by
    rw [hframe, Function.update_self]
  rw [Coroutines.checkRelease, hi]
  dsimp only
  have hpromise : (s.clearTask i).promise p = s.promise p := rfl
  rw [hpromise]
  cases hbase : (s.promise p).eventBase with
  | none =>
    rw [if_pos rfl]
    refine .one hp rfl (hlocated.write_of_eq rfl rfl) ?_ (.drop hbase htasks) trivial ?_
    · rw [frame_destroyFrame, hself, hframe, Function.update_idem]
      rfl
    · obtain ⟨hpoint, hvalue, -⟩ := halive.fresh_of_base hbase
      rintro effect (_ | ⟨_, _ | ⟨_, ⟨⟩⟩⟩)
      · exact halive.destroyed
      · refine ⟨halive.destroyed, hvalue, ?_⟩
        change (s.frame p).promise.point ≠ _
        rw [hpoint]
        simp
  | some base =>
    rw [if_neg (Option.some_ne_none _), post_of_base (s := s.clearTask i) hbase]
    have hne : (s.frame p).promise.eventBase ≠ none := by
      change (s.promise p).eventBase ≠ none
      rw [hbase]
      exact Option.some_ne_none _
    refine .one hp rfl (hlocated.push hbase) ?_ (.release hne htasks) trivial ?_
    · rw [frame_push (s := s.clearTask i) hbase .removeAwaiter, hself, hframe, Function.update_idem]
    · rintro effect (_ | ⟨_, ⟨⟩⟩)
      exact halive.destroyed

/-- **A `FutureValue` completes.** -/
theorem Inv.completeValue (h : s.Inv) (hi : s.value i = some p) :
    Moves s operation (s.completeValue i) := by
  obtain ⟨hp, halive⟩ := h.alive_of_value hi
  obtain ⟨n, hwaiting, hframe⟩ := frame_dropValue hi
  have hlocated : (s.clearValue i).Located := ⟨h.posted, h.busy, h.parent⟩
  have hself : (s.clearValue i).frame p = { s.frame p with waiting := n } := by
    rw [hframe, Function.update_self]
  have hpending : (s.frame p).pending ≠ 0 := by
    rw [Frame.pending]
    omega
  obtain ⟨-, -, hne, -⟩ := halive.suspended_of_pending hpending
  obtain ⟨base, hbase⟩ := Option.ne_none_iff_exists'.mp hne
  have hbase : (s.promise p).eventBase = some base := hbase
  rw [Coroutines.completeValue, hi]
  dsimp only
  rw [post_of_base (s := s.clearValue i) hbase]
  refine .one hp rfl (hlocated.push hbase) ?_ (.complete hwaiting) trivial ?_
  · rw [frame_push (s := s.clearValue i) hbase .setSuspendValue, hself, hframe,
      Function.update_idem]
  · rintro effect (_ | ⟨_, ⟨⟩⟩)
    exact halive.destroyed

theorem task_checkRelease (hi : i < s.tasks.length) :
    (s.checkRelease i).1.tasks[i]? = some none := by
  rw [Coroutines.checkRelease]
  split
  case h_1 hnone => exact getElem?_of_target_none hi hnone
  case h_2 p hsome =>
    dsimp only
    have hset : (s.clearTask i).tasks[i]? = some none := List.getElem?_set_self hi
    split
    case isTrue => exact hset
    case isFalse =>
      rw [post]
      split <;> exact hset

theorem value_completeValue (hi : i < s.values.length) :
    (s.completeValue i).1.values[i]? = some none := by
  rw [Coroutines.completeValue]
  split
  case h_1 hnone => exact getElem?_of_target_none hi hnone
  case h_2 p hsome =>
    have hset : (s.clearValue i).values[i]? = some none := List.getElem?_set_self hi
    rw [post]
    split <;> exact hset

/-- A step and a move of wrappers after it. -/
theorem Moves.retask {r : Coroutines × List Effect} (h : Moves s operation r)
    {tasks : List (Option ℕ)} (htasks : ∀ q, holders tasks q = holders r.1.tasks q) :
    Moves s operation ({ r.1 with tasks := tasks }, r.2) := by
  refine ⟨h.count, ⟨h.located.posted, h.located.busy, h.located.parent⟩, fun q => ?_, h.sound⟩
  dsimp only
  rw [frame_tasks htasks]
  exact h.frames q

/-- A step and a move of `FutureValue`s after it. -/
theorem Moves.revalue {r : Coroutines × List Effect} (h : Moves s operation r)
    {values : List (Option ℕ)} (hvalues : ∀ q, holders values q = holders r.1.values q) :
    Moves s operation ({ r.1 with values := values }, r.2) := by
  refine ⟨h.count, ⟨h.located.posted, h.located.busy, h.located.parent⟩, fun q => ?_, h.sound⟩
  dsimp only
  rw [frame_values hvalues]
  exact h.frames q

/-- A move makes a handle at the end. -/
theorem holders_move (handles : List (Option ℕ)) (hi : i < handles.length) (q : ℕ) :
    holders (takeOver (handles ++ [none]) handles.length i) q = holders handles q := by
  rw [holders_takeOver (Nat.ne_of_gt hi) List.getElem?_concat_length, holders_concat, weight_none,
    Nat.add_zero]

theorem Inv.release (h : s.Inv) (i : ℕ) : Moves s operation (s.checkRelease i) := by
  cases hi : s.task i with
  | none =>
    rw [Coroutines.checkRelease, hi]
    exact .refl h.toLocated
  | some p => exact h.checkRelease hi

theorem Inv.complete (h : s.Inv) (i : ℕ) : Moves s operation (s.completeValue i) := by
  cases hi : s.value i with
  | none =>
    rw [Coroutines.completeValue, hi]
    exact .refl h.toLocated
  | some p => exact h.completeValue hi

/-- **`destroy()`.** -/
theorem Inv.destroy (h : s.Inv) (i : ℕ) : Moves s (.destroy i) (s.step (.destroy i)) := by
  rw [Coroutines.step]
  split
  case h_1 => exact .refl h.toLocated
  case h_2 p hi =>
    obtain ⟨hp, halive⟩ := h.alive_of_task hi
    have hused : ∀ effect ∈ [Effect.used p], s.Sound effect := by
      rintro effect (_ | ⟨_, ⟨⟩⟩)
      exact halive.destroyed
    split
    case isTrue => exact .stay rfl h.toLocated rfl hused
    case isFalse hbase =>
      have hwrite : (s.write p { s.promise p with forceDestroy := true }).frame =
          Function.update s.frame p
            { s.frame p with promise := { s.promise p with forceDestroy := true } } :=
        frame_write rfl rfl
      have hlocated : (s.write p { s.promise p with forceDestroy := true }).Located :=
        h.toLocated.write_of_eq rfl rfl
      obtain ⟨n, htasks, hframe⟩ :=
        frame_dropTask (s := s.write p { s.promise p with forceDestroy := true }) (i := i) hi
      rw [hwrite, Function.update_self] at htasks hframe
      refine .one hp rfl ⟨hlocated.posted, hlocated.busy, hlocated.parent⟩ ?_
        (.destroy hbase htasks) ⟨i, rfl, hi⟩ hused
      rw [hframe, Function.update_idem]
      rfl

/-- What an event base is busy with is alive. -/
theorem Inv.alive_of_activity (h : s.Inv) {activity : Activity}
    (hbusy : s.activity base = some (p, activity)) :
    (s.promise p).eventBase = some base ∧ p < s.count ∧ (s.frame p).activity = some activity ∧
      (s.frame p).Alive := by
  have hbase := h.busy base p activity hbusy
  have hactivity : (s.frame p).activity = some activity := by
    change (s.promise p).eventBase.bind _ = _
    rw [hbase, Option.bind_some, activityAt, hbusy, Option.bind_some]
    exact if_pos rfl
  have hlt : p < s.count := by
    by_contra hge
    rw [h.unborn p (Nat.le_of_not_lt hge)] at hactivity
    cases hactivity
  refine ⟨hbase, hlt, hactivity, (h.ok p hlt).resolve_right fun hgone => ?_⟩
  rw [hgone.activity] at hactivity
  cases hactivity

theorem activity_of_runningOn (hrunning : s.runningOn base = some p) :
    s.activity base = some (p, .running) := by
  rw [runningOn] at hrunning
  split at hrunning
  case h_1 q heq => rw [heq, Option.some.inj hrunning]
  case h_2 => cases hrunning

theorem completes_of_not_done {promise promise' : Promise} (h : promise.point ≠ .done)
    (h' : promise'.point ≠ .done)
    (hparent : promise'.suspendingPromise = promise.suspendingPromise) :
    promise'.completes = promise.completes := by
  rw [Promise.completes, if_neg h', Promise.completes, if_neg h, hparent]

theorem busy_eq {activity : Activity} (hbusy : s.activity base = some (p, activity)) :
    ∀ a, s.activity base = some a → a.1 = p := by
  intro a ha
  rw [hbusy] at ha
  rw [← Option.some.inj ha]

/-- **A coroutine is suspended.** -/
theorem Inv.frame_suspend (h : s.Inv) (hrunning : s.runningOn base = some p) :
    (s.suspend base p).Located ∧ (s.suspend base p).frame = Function.update s.frame p
      { s.frame p with
        promise := { s.promise p with hasSuspendValue := true, point := .suspended }
        activity := some (.checking false) } := by
  have hbusy := activity_of_runningOn hrunning
  obtain ⟨hbase, -, hactivity, halive⟩ := h.alive_of_activity hbusy
  obtain ⟨hpoint, -⟩ := halive.running_of_activity hactivity
  have hpoint : (s.promise p).point = .running := hpoint
  have hwrite : (s.write p { s.promise p with
      hasSuspendValue := true, point := .suspended }).Located :=
    h.toLocated.write_of_eq rfl rfl
  have hcompletes : Promise.completes { s.promise p with
      hasSuspendValue := true, point := .suspended } = (s.promise p).completes :=
    completes_of_not_done (by rw [hpoint]; simp) (by simp) rfl
  refine ⟨hwrite.goOn ?_ (some (.checking false)), frame_goOn_write _ hbase (busy_eq hbusy)
    (by rfl) hcompletes (some (.checking false))⟩
  change (Function.update s.promise p _ p).eventBase = _
  rw [Function.update_self]
  exact hbase

/-- **`co_await` of a future.** -/
theorem Inv.awaitFuture (h : s.Inv) (base : ℕ) (hasExecuteFunc : Bool) :
    Moves s (.awaitFuture base hasExecuteFunc) (s.step (.awaitFuture base hasExecuteFunc)) := by
  rw [Coroutines.step]
  split
  case h_1 => exact .refl h.toLocated
  case h_2 p hrunning =>
    obtain ⟨hlocated, hframe⟩ := h.frame_suspend hrunning
    obtain ⟨-, hp, hactivity, halive⟩ := h.alive_of_activity (activity_of_runningOn hrunning)
    have hused : ∀ effect ∈ [Effect.used p], s.Sound effect := by
      rintro effect (_ | ⟨_, ⟨⟩⟩)
      exact halive.destroyed
    cases hasExecuteFunc with
    | false =>
      exact .one hp rfl hlocated hframe (.suspend hactivity (Nat.zero_le 1))
        (fun _ => ⟨base, rfl, hrunning⟩) hused
    | true =>
      refine .one hp rfl ⟨hlocated.posted, hlocated.busy, hlocated.parent⟩ ?_
        (.suspend hactivity (Nat.le_refl 1)) (fun hzero => absurd hzero Nat.one_ne_zero) hused
      have hwaiting : ∀ q, waiting { s.suspend base p with values := s.values ++ [some p] } q =
          (s.suspend base p).waiting q + weight (some p) q := by
        intro q
        rw [waiting, waiting]
        dsimp only
        rw [holders_concat, Nat.add_right_comm]
        rfl
      have hconcat : frame { s.suspend base p with values := s.values ++ [some p] } = fun q =>
          { (s.suspend base p).frame q with
            waiting := ((s.suspend base p).frame q).waiting + weight (some p) q } := by
        funext q
        rw [frame, hwaiting]
        rfl
      refine hconcat.trans ?_
      rw [update_weight, hframe, Function.update_self, Function.update_idem]
      rfl

/-- A promise without an event base is to complete nothing. -/
theorem Located.completes_of_base (h : s.Located) (hnone : (s.promise p).eventBase = none) :
    (s.promise p).suspendingPromise = none := by
  by_contra hne
  obtain ⟨parent, hparent⟩ := Option.ne_none_iff_exists'.mp hne
  obtain ⟨base, hbase, -⟩ := h.parent p parent hparent
  rw [hnone] at hbase
  cases hbase

/-- **A task is started.** -/
theorem Inv.startRunningOn (h : s.Inv) (hi : s.task i = some p)
    (hnone : (s.promise p).eventBase = none) (base : ℕ) :
    Moves s (.startRunningOn i base) (s.runOn p base) := by
  obtain ⟨hp, halive⟩ := h.alive_of_task hi
  obtain ⟨-, -, -, htasks, hevents⟩ := halive.fresh_of_base hnone
  have hne : (s.frame p).tasks ≠ 0 := by
    rw [htasks]
    exact Nat.one_ne_zero
  have hwrite : (s.write p { s.promise p with eventBase := some base }).frame =
      Function.update s.frame p
        { s.frame p with promise := { s.promise p with eventBase := some base } } :=
    (frame_start h.toLocated hp hnone _ rfl).trans (update_waiting rfl)
  have hlocated : (s.write p { s.promise p with eventBase := some base }).Located := by
    refine h.toLocated.write (fun b hb => ?_) fun parent hparent => .inl hparent
    rw [hnone] at hb
    cases hb
  have hbase : ((s.write p { s.promise p with eventBase := some base }).promise p).eventBase =
      some base := by
    change (Function.update s.promise p _ p).eventBase = _
    rw [Function.update_self]
  refine .one hp rfl (hlocated.push hbase) ?_
    (.start base (s.promise p).suspendingPromise hnone hne) trivial ?_
  · rw [frame_push hbase .run, hwrite, Function.update_self, Function.update_idem]
    dsimp only
    rw [hevents]
    rfl
  · rintro effect (_ | ⟨_, ⟨⟩⟩)
    exact halive.destroyed

/-- **A child is started.** -/
theorem frame_startChild {started : Promise} {parent : ℕ} (h : s.Located) (hp : p < s.count)
    (hnone : (s.promise p).eventBase = none) (hbase : started.eventBase = some base)
    (hcompletes : started.completes = some parent) :
    (s.write p started).frame = fun q =>
      { Function.update s.frame p { s.frame p with promise := started } q with
        waiting := s.waiting q + weight (some parent) q } := by
  refine (frame_start h hp hnone started hbase).trans (funext fun q => ?_)
  have hbefore : (s.promise p).completes = none := by
    rw [Promise.completes, h.completes_of_base hnone, ite_self]
  have hchildren := children_write hp started q
  rw [hbefore, hcompletes, weight_none, Nat.add_zero] at hchildren
  have hwaiting : (s.write p started).waiting q = s.waiting q + weight (some parent) q := by
    rw [waiting, hchildren, waiting, Nat.add_assoc]
    rfl
  rw [hwaiting]

/-- **`co_await` of a task.** -/
theorem Inv.awaitTask (h : s.Inv) {child : ℕ} (hrunning : s.runningOn base = some p)
    (hi : s.task i = some child) (hnone : (s.promise child).eventBase = none) :
    Moves s (.awaitTask base i) (s.step (.awaitTask base i)) := by
  obtain ⟨hlocated, hframe⟩ := h.frame_suspend hrunning
  obtain ⟨hbase, hp, hactivity, halive⟩ := h.alive_of_activity (activity_of_runningOn hrunning)
  obtain ⟨hchild, haliveChild⟩ := h.alive_of_task hi
  obtain ⟨hinitial, -, -, htasks, hevents⟩ := haliveChild.fresh_of_base hnone
  have hpoint : (s.promise child).point ≠ .done := by
    change (s.frame child).promise.point ≠ _
    rw [hinitial]
    simp
  have hne : child ≠ p := by
    rintro rfl
    rw [hnone] at hbase
    cases hbase
  have hsame : (s.suspend base p).promise child = s.promise child := Function.update_of_ne hne ..
  have hparent : ((s.suspend base p).promise p).eventBase = some base := by
    rw [suspend, goOn, write]
    dsimp only
    rw [Function.update_self]
    exact hbase
  have hnoneSuspend : ((s.suspend base p).promise child).eventBase = none := by rw [hsame, hnone]
  -- the two writes are one
  obtain ⟨started, hstarted⟩ : ∃ started : Promise,
      started = { s.promise child with suspendingPromise := some p, eventBase := some base } :=
    ⟨_, rfl⟩
  have hstartedBase : started.eventBase = some base := by rw [hstarted]
  have hcompletes : started.completes = some p := by
    rw [Promise.completes, hstarted]
    exact if_neg hpoint
  have hstep : s.step (.awaitTask base i) =
      (((s.suspend base p).write child started).push base ⟨.run, child⟩,
        [.used child, .used p]) := by
    rw [Coroutines.step, hrunning, hi]
    dsimp only
    rw [if_neg hpoint, hbase]
    dsimp only [runOn]
    simp only [write, Function.update_self, Function.update_idem, hstarted, hsame]
  have hlocatedStarted : ((s.suspend base p).write child started).Located := by
    refine hlocated.write (fun b hb => ?_) fun parent heq => .inr ⟨base, hstartedBase, ?_⟩
    · rw [hnoneSuspend] at hb
      cases hb
    · rw [hstarted] at heq
      rw [← Option.some.inj heq, hparent]
  have hchildBase : (((s.suspend base p).write child started).promise child).eventBase =
      some base := by
    rw [write]
    dsimp only
    rw [Function.update_self, hstartedBase]
  have hwaiting : ∀ q, (s.suspend base p).waiting q = s.waiting q := by
    intro q
    have hw := congrArg Frame.waiting (congrFun hframe q)
    rcases eq_or_ne q p with rfl | hqp
    · rwa [Function.update_self] at hw
    · rwa [Function.update_of_ne hqp] at hw
  rw [hstep]
  refine ⟨rfl, hlocatedStarted.push hchildBase, fun q => ?_, ?_⟩
  · dsimp only
    rw [frame_push hchildBase .run,
      frame_startChild hlocated hchild hnoneSuspend hstartedBase hcompletes]
    rcases eq_or_ne q child with rfl | hqc
    · have hsuspend : (s.suspend base p).frame q = s.frame q := by
        rw [hframe, Function.update_of_ne hne]
      have htask : (s.frame q).tasks ≠ 0 := by
        rw [htasks]
        exact Nat.one_ne_zero
      refine .inr ⟨hchild, .other, trivial, ?_⟩
      rw [Function.update_self]
      dsimp only
      rw [Function.update_self, hsuspend, hwaiting, weight_of_ne hne.symm, hstarted]
      dsimp only
      rw [hevents]
      exact .start base (some p) hnone htask
    · rw [Function.update_of_ne hqc]
      dsimp only
      rw [Function.update_of_ne hqc, hframe, hwaiting]
      rcases eq_or_ne q p with rfl | hqp
      · refine .inr ⟨hp, .suspend 1, fun hzero => absurd hzero Nat.one_ne_zero, ?_⟩
        rw [Function.update_self, weight_self]
        exact .suspend hactivity (Nat.le_refl 1)
      · refine .inl ?_
        rw [Function.update_of_ne hqp, weight_of_ne (Ne.symm hqp)]
        rfl
  · rintro effect (_ | ⟨_, _ | ⟨_, ⟨⟩⟩⟩)
    · exact haliveChild.destroyed
    · exact halive.destroyed

/-- **A body returns.** -/
theorem Inv.coReturn (h : s.Inv) (base : ℕ) :
    Moves s (.coReturn base) (s.step (.coReturn base)) := by
  rw [Coroutines.step]
  split
  case h_1 => exact .refl h.toLocated
  case h_2 p hrunning =>
    have hbusy := activity_of_runningOn hrunning
    obtain ⟨hbase, hp, hactivity, halive⟩ := h.alive_of_activity hbusy
    obtain ⟨hpoint, -⟩ := halive.running_of_activity hactivity
    have hpoint : (s.promise p).point = .running := hpoint
    have hasks : s.Asks (.coReturn base) p .coReturn := ⟨base, rfl, hrunning⟩
    obtain ⟨finished, hfinished⟩ : ∃ finished : Promise,
        finished = { s.promise p with point := .done } := ⟨_, rfl⟩
    have hself : (s.write p finished).promise p = finished := Function.update_self ..
    have hfinishedBase : finished.eventBase = some base := by rw [hfinished]; exact hbase
    have hsuspending : finished.suspendingPromise = (s.promise p).suspendingPromise := by
      rw [hfinished]
    have hafter : finished.completes = none := by rw [Promise.completes, hfinished]; rfl
    have hwriteBase : ((s.write p finished).promise p).eventBase = some base := by
      rw [hself, hfinishedBase]
    have hlocated : ((s.write p finished).goOn base (some (p, .checking false))).Located := by
      refine Located.goOn ?_ hwriteBase (some (.checking false))
      exact h.toLocated.write_of_eq (hfinishedBase.trans hbase.symm) hsuspending
    have hgoOn := frame_goOn hwriteBase (busy_eq hbusy) (some (.checking false))
    have hpromise : ((s.write p finished).goOn base (some (p, .checking false))).promise p =
        finished := hself
    rw [← hfinished]
    dsimp only
    rw [hpromise, hsuspending]
    split
    case h_1 hnone =>
      have hcompletes : finished.completes = (s.promise p).completes := by
        rw [hafter, Promise.completes, hnone, ite_self]
      refine .one hp rfl hlocated (hgoOn.trans ?_) (.coReturn hactivity) hasks ?_
      · rw [frame_write (hfinishedBase.trans hbase.symm) hcompletes, Function.update_self,
          Function.update_idem, hfinished]
        rfl
      · rintro effect (_ | ⟨_, ⟨⟩⟩)
        exact halive.destroyed
    case h_2 parent hparent =>
      obtain ⟨base', hbase', hparentBase⟩ := h.parent p parent hparent
      obtain rfl : base' = base := Option.some.inj (hbase'.symm.trans hbase)
      -- the parent is suspended, and waits for this child
      have hbefore : (s.promise p).completes = some parent := by
        rw [Promise.completes, hparent, hpoint]
        rfl
      have hchildren := children_write hp finished
      have hwaiting : ∀ q, (s.write p finished).waiting q + weight (some parent) q =
          s.waiting q := by
        intro q
        have hq := hchildren q
        rw [hbefore, hafter, weight_none] at hq
        rw [waiting, waiting]
        change holders s.values q + _ + _ = _
        omega
      have hone : (s.frame parent).waiting = (s.write p finished).waiting parent + 1 := by
        have hq := hwaiting parent
        rw [weight_self] at hq
        exact hq.symm
      have hparentLt : parent < s.count := by
        by_contra hge
        rw [h.unborn parent (Nat.le_of_not_lt hge)] at hone
        cases hone
      have hne : parent ≠ p := by
        rintro rfl
        have hpending : (s.frame parent).pending ≠ 0 := by
          rw [Frame.pending]
          omega
        obtain ⟨-, hsuspended, -⟩ := halive.suspended_of_pending hpending
        have hsuspended : (s.promise parent).point = .suspended := hsuspended
        rw [hpoint] at hsuspended
        cases hsuspended
      have hparentPromise : ((s.write p finished).goOn base' (some (p, .checking false))).promise
          parent = s.promise parent := Function.update_of_ne hne ..
      have hparentBase : (((s.write p finished).goOn base' (some (p, .checking false))).promise
          parent).eventBase = some base' := by
        rw [hparentPromise]
        exact hparentBase
      have hownBase : (((s.write p finished).goOn base' (some (p, .checking false))).promise
          p).eventBase = some base' := hwriteBase
      rw [post_of_base hownBase]
      refine ⟨rfl, hlocated.push hparentBase, fun q => ?_, ?_⟩
      · dsimp only
        have hgoOn :
            ((s.write p finished).goOn base' (some (p, .checking false))).frame = _ := hgoOn
        rw [frame_push hparentBase .setSuspendValue, hgoOn,
          frame_write_waiting (hfinishedBase.trans hbase.symm)]
        rcases eq_or_ne q parent with rfl | hqparent
        · refine .inr ⟨hparentLt, .other, trivial, ?_⟩
          rw [Function.update_self, Function.update_of_ne hne]
          dsimp only
          rw [Function.update_of_ne hne]
          exact .complete hone
        · have hq := hwaiting q
          rw [weight_of_ne hqparent.symm, Nat.add_zero] at hq
          rw [Function.update_of_ne hqparent]
          rcases eq_or_ne q p with rfl | hqp
          · refine .inr ⟨hp, .coReturn, hasks, ?_⟩
            rw [Function.update_self]
            dsimp only
            rw [Function.update_self, hq, hfinished]
            exact .coReturn hactivity
          · rw [Function.update_of_ne hqp]
            dsimp only
            rw [Function.update_of_ne hqp, hq]
            exact .inl rfl
      · rintro effect (_ | ⟨_, ⟨⟩⟩)
        exact halive.destroyed

/-- **A base goes on with the promise of its next event.** -/
theorem Inv.handle_write (h : s.Inv) {event : TaskInfoEvent} {rest : List TaskInfoEvent}
    {events : List TaskType} {handled : Promise} {activity : Activity}
    (hidle : s.activity base = none) (hqueue : s.queue base = event :: rest)
    (hframe : frame { s with queue := Function.update s.queue base rest } =
      Function.update s.frame event.promise { s.frame event.promise with events := events })
    (hbase : handled.eventBase = (s.promise event.promise).eventBase)
    (hparent : handled.suspendingPromise = (s.promise event.promise).suspendingPromise)
    (hcompletes : handled.completes = (s.promise event.promise).completes)
    (hstep : Frame.Step .other (s.frame event.promise)
      { s.frame event.promise with
        promise := handled, events := events, activity := some activity })
    (hsound : ∀ effect ∈ effects, s.Sound effect) :
    Moves s operation
      ((write { s with queue := Function.update s.queue base rest } event.promise handled).goOn
        base (some (event.promise, activity)), effects) := by
  have hlocated : Located { s with queue := Function.update s.queue base rest } :=
    h.toLocated.take hqueue
  have hown : (s.promise event.promise).eventBase = some base :=
    h.posted base event (hqueue ▸ List.mem_cons_self)
  have hp : event.promise < s.count := by
    by_contra hge
    have hunborn := congrArg (fun f => f.promise.eventBase) (h.unborn _ (Nat.le_of_not_lt hge))
    have hnone : (s.promise event.promise).eventBase = none := hunborn
    rw [hown] at hnone
    cases hnone
  have hself : ((write { s with queue := Function.update s.queue base rest } event.promise
      handled).promise event.promise).eventBase = some base := by
    rw [write]
    dsimp only
    rw [Function.update_self, hbase, hown]
  refine .one hp rfl ((hlocated.write_of_eq hbase hparent).goOn hself (some activity)) ?_ hstep
    trivial hsound
  have hgoOn := frame_goOn_write (s := { s with queue := Function.update s.queue base rest })
    handled hown (fun a ha => by rw [hidle] at ha; cases ha) hbase hcompletes (some activity)
  refine hgoOn.trans ?_
  rw [hframe, Function.update_self, Function.update_idem]

/-- **`check_handle` up to the end of `handle.resume()`.** -/
theorem Inv.checkHandle (h : s.Inv) (base : ℕ) :
    Moves s operation (s.step (.checkHandle base)) := by
  rw [Coroutines.step]
  split
  case h_2 => exact .refl h.toLocated
  case h_1 event rest hidle hqueue =>
    obtain ⟨type, p⟩ := event
    have hbase : (s.promise p).eventBase = some base :=
      h.posted base ⟨type, p⟩ (hqueue ▸ List.mem_cons_self)
    obtain ⟨events, hevents, hframe⟩ := frame_take hqueue hbase
    have hevents : (s.frame p).events = type :: events := hevents
    have hp : p < s.count := by
      by_contra hge
      rw [h.unborn p (Nat.le_of_not_lt hge)] at hevents
      cases hevents
    have halive : (s.frame p).Alive := by
      refine (h.ok p hp).resolve_right fun hgone => ?_
      rw [hgone.events] at hevents
      cases hevents
    have hactivity : (s.frame p).activity = none := by
      change (s.promise p).eventBase.bind _ = _
      rw [hbase, Option.bind_some, activityAt, hidle]
      rfl
    have hused : ∀ effect ∈ [Effect.used p], s.Sound effect := by
      rintro effect (_ | ⟨_, ⟨⟩⟩)
      exact halive.destroyed
    cases type with
    | run =>
      obtain ⟨hpoint, -⟩ := halive.initial_of_run hevents
      have hpoint : (s.promise p).point = .initial := hpoint
      refine h.handle_write hidle hqueue hframe rfl rfl
        (completes_of_not_done (by rw [hpoint]; simp) (by simp) rfl)
        (.run hevents hactivity) ?_
      rintro effect (_ | ⟨_, _ | ⟨_, ⟨⟩⟩⟩)
      · exact halive.destroyed
      · exact ⟨halive.destroyed, .inl hpoint⟩
    | setSuspendValue =>
      have hpending : (s.frame p).pending ≠ 0 := by
        rw [Frame.pending, hevents, List.count_cons_self]
        omega
      obtain ⟨-, hpoint, -⟩ := halive.suspended_of_pending hpending
      have hpoint : (s.promise p).point = .suspended := hpoint
      have hnotDone : (s.promise p).point ≠ .done := by rw [hpoint]; simp
      rw [handle]
      dsimp only
      have hself : ((write { s with queue := Function.update s.queue base rest } p
          { s.promise p with hasSuspendValue := false }).promise p) =
            { s.promise p with hasSuspendValue := false } := Function.update_self ..
      rw [hself]
      dsimp only
      split
      case isTrue hforce =>
        have htwice : (write (write { s with queue := Function.update s.queue base rest } p
            { s.promise p with hasSuspendValue := false }) p
              { s.promise p with hasSuspendValue := false, point := .running }) =
            write { s with queue := Function.update s.queue base rest } p
              { s.promise p with hasSuspendValue := false, point := .running } := by
          simp only [write, Function.update_idem]
        rw [resume, hself, htwice]
        refine h.handle_write hidle hqueue hframe rfl rfl
          (completes_of_not_done hnotDone (by simp) rfl) (.resume hevents hactivity hforce) ?_
        rintro effect (_ | ⟨_, _ | ⟨_, ⟨⟩⟩⟩)
        · exact halive.destroyed
        · exact ⟨halive.destroyed, .inr ⟨hpoint, hforce⟩⟩
      case isFalse hforce =>
        exact h.handle_write hidle hqueue hframe rfl rfl
          (completes_of_not_done hnotDone hnotDone rfl)
          (.reclaim hevents hactivity (Bool.of_not_eq_false hforce)) hused
    | removeAwaiter =>
      exact h.handle_write hidle hqueue hframe rfl rfl rfl (.removeAwaiter hevents hactivity) hused
    | forceDestroy =>
      exact h.handle_write hidle hqueue hframe rfl rfl rfl (.forceDestroy hevents hactivity) hused

/-- **The last `if` of `check_handle`.** -/
theorem Inv.checkDestroy (h : s.Inv) (base : ℕ) :
    Moves s operation (s.step (.checkDestroy base)) := by
  rw [Coroutines.step]
  split
  case h_2 => exact .refl h.toLocated
  case h_1 p isForceDestroy hbusy =>
    obtain ⟨hbase, hp, hactivity, halive⟩ := h.alive_of_activity hbusy
    have hlocated : (s.goOn base none).Located := h.toLocated.goOn hbase none
    have hgoOn : (s.goOn base none).frame = _ := frame_goOn hbase (busy_eq hbusy) none
    have hstep := Frame.Step.checked hactivity
    have hpromise : (s.goOn base none).promise p = s.promise p := rfl
    dsimp only
    rw [hpromise]
    split
    case isTrue hdestroys =>
      have hframeDestroys : Frame.Destroys (s.frame p).promise isForceDestroy := hdestroys
      rw [if_pos hframeDestroys] at hstep
      refine .one hp rfl (hlocated.write_of_eq rfl rfl) ?_ hstep trivial ?_
      · rw [frame_destroyFrame, hgoOn, Function.update_self, Function.update_idem]
        rfl
      · obtain ⟨-, -, hstands⟩ := halive.stands_of_checking hactivity
        rintro effect (_ | ⟨_, _ | ⟨_, ⟨⟩⟩⟩)
        · exact halive.destroyed
        · refine ⟨halive.destroyed, hdestroys.2, fun hrunning => ?_⟩
          have hrunning : (s.frame p).promise.point = .running := hrunning
          rw [hrunning] at hstands
          simp at hstands
    case isFalse hnot =>
      have hframeNot : ¬ Frame.Destroys (s.frame p).promise isForceDestroy := hnot
      rw [if_neg hframeNot] at hstep
      refine .one hp rfl hlocated hgoOn hstep trivial ?_
      rintro effect (_ | ⟨_, ⟨⟩⟩)
      exact halive.destroyed

end Moves

/-! ## Whole programs -/

/-- A wrapper holds a task that was not started. -/
def Unstarted (s : Coroutines) (i : ℕ) : Prop :=
  (s.task i).map (fun p => (s.promise p).eventBase) = some none

instance (s : Coroutines) (i : ℕ) : Decidable (s.Unstarted i) :=
  inferInstanceAs (Decidable (_ = _))

/-- A task is started once, by `start_running_on` or `co_await`. -/
def StartsOnce (s : Coroutines) : Operation → Prop
  | .startRunningOn i _ => s.Unstarted i
  | .awaitTask _ i => s.Unstarted i
  | _ => True

instance (s : Coroutines) : ∀ operation, Decidable (s.StartsOnce operation)
  | .startRunningOn i _ => inferInstanceAs (Decidable (s.Unstarted i))
  | .awaitTask _ i => inferInstanceAs (Decidable (s.Unstarted i))
  | .create | .move _ | .moveAssign _ _ | .release _ | .destroy _ | .awaitFuture _ _ | .coReturn _
  | .moveValue _ | .moveAssignValue _ _ | .complete _ | .checkHandle _ | .checkDestroy _ =>
    inferInstanceAs (Decidable True)

section Programs

variable {s t : Coroutines} {p : ℕ} {operation : Operation} {operations : List Operation}

theorem exists_of_unstarted {i : ℕ} (h : s.Unstarted i) :
    ∃ p, s.task i = some p ∧ (s.promise p).eventBase = none := Option.map_eq_some_iff.mp h

/-- **What a step is for the frames.** -/
theorem Inv.moves (h : s.Inv) (hstarts : s.StartsOnce operation) (hcreate : operation ≠ .create) :
    Moves s operation (s.step operation) := by
  cases operation with
  | create => exact absurd rfl hcreate
  | move i =>
    rw [Coroutines.step]
    split
    case isTrue hi => exact (Moves.refl h.toLocated).retask (holders_move s.tasks hi)
    case isFalse => exact .refl h.toLocated
  | moveAssign this other =>
    rw [Coroutines.step]
    split
    case isTrue => exact .refl h.toLocated
    case isFalse hne =>
      obtain ⟨hother, hthis⟩ := not_or.mp hne
      exact (h.release this).retask
        (holders_takeOver hother (task_checkRelease (Nat.lt_of_not_le hthis)))
  | release i => exact h.release i
  | destroy i => exact h.destroy i
  | startRunningOn i base =>
    obtain ⟨p, hi, hbase⟩ := exists_of_unstarted hstarts
    rw [Coroutines.step, hi]
    exact h.startRunningOn hi hbase base
  | awaitTask base i =>
    obtain ⟨child, hi, hbase⟩ := exists_of_unstarted hstarts
    cases hrunning : s.runningOn base with
    | none =>
      rw [Coroutines.step, hrunning]
      exact .refl h.toLocated
    | some p => exact h.awaitTask hrunning hi hbase
  | awaitFuture base hasExecuteFunc => exact h.awaitFuture base hasExecuteFunc
  | coReturn base => exact h.coReturn base
  | moveValue i =>
    rw [Coroutines.step]
    split
    case isTrue hi => exact (Moves.refl h.toLocated).revalue (holders_move s.values hi)
    case isFalse => exact .refl h.toLocated
  | moveAssignValue this other =>
    rw [Coroutines.step]
    split
    case isTrue => exact .refl h.toLocated
    case isFalse hne =>
      obtain ⟨hother, hthis⟩ := not_or.mp hne
      exact (h.complete this).revalue
        (holders_takeOver hother (value_completeValue (Nat.lt_of_not_le hthis)))
  | complete i => exact h.complete i
  | checkHandle base => exact h.checkHandle base
  | checkDestroy base => exact h.checkDestroy base

theorem Inv.of_moves {r : Coroutines × List Effect} (h : s.Inv) (hmoves : Moves s operation r) :
    r.1.Inv := by
  refine ⟨hmoves.located, fun q hq => ?_, fun q hq => ?_⟩
  · rw [hmoves.count] at hq
    rcases hmoves.frames q with hsame | ⟨-, kind, -, hstep⟩
    · rw [hsame]
      exact h.ok q hq
    · exact (h.ok q hq).step hstep
  · rw [hmoves.count] at hq
    rcases hmoves.frames q with hsame | ⟨hlt, -⟩
    · rw [hsame]
      exact h.unborn q hq
    · exact absurd hlt (Nat.not_lt_of_le hq)

/-- **A coroutine is called**: the frame is fresh, and the others are as they were. -/
theorem Inv.frame_create (h : s.Inv) :
    (next step s .create).frame = Function.update s.frame s.count .fresh := by
  have hunborn := h.unborn s.count (Nat.le_refl _)
  have hchildren : ∀ q, holders (next step s .create).children q = holders s.children q := by
    intro q
    have hpromise : s.promise s.count = .fresh := congrArg Frame.promise hunborn
    have hconcat : (next step s .create).children = s.children ++ [none] := by
      change (List.range (s.count + 1)).map _ = _
      rw [List.range_succ, List.map_append, List.map_singleton]
      change _ ++ [(s.promise s.count).completes] = _
      rw [hpromise]
      rfl
    rw [hconcat, holders_concat, weight_none, Nat.add_zero]
  have htasks : ∀ q, holders (next step s .create).tasks q =
      holders s.tasks q + weight (some s.count) q := fun q => holders_concat s.tasks _ q
  funext q
  have hwaiting : (next step s .create).waiting q = s.waiting q := by
    rw [waiting, hchildren]
    rfl
  rw [frame, hwaiting, htasks]
  rcases eq_or_ne q s.count with rfl | hne
  · rw [Function.update_self, weight_self]
    have hfresh : { s.frame s.count with tasks := (s.frame s.count).tasks + 1 } = Frame.fresh := by
      rw [hunborn]
      rfl
    exact hfresh
  · rw [Function.update_of_ne hne, weight_of_ne hne.symm]
    rfl

/-- **The step lemma.** -/
theorem Inv.step (h : s.Inv) (hstarts : s.StartsOnce operation) : (next step s operation).Inv := by
  by_cases hcreate : operation = .create
  · subst hcreate
    refine ⟨⟨h.posted, h.busy, h.parent⟩, fun q hq => ?_, fun q hq => ?_⟩
    · rw [h.frame_create]
      rcases eq_or_ne q s.count with rfl | hne
      · rw [Function.update_self]
        exact .inl Frame.alive_fresh
      · rw [Function.update_of_ne hne]
        have hlt : q < s.count + 1 := hq
        exact h.ok q (by omega)
    · have hlt : s.count + 1 ≤ q := hq
      rw [h.frame_create, Function.update_of_ne (by omega)]
      exact h.unborn q (by omega)
  · exact h.of_moves (h.moves hstarts hcreate)

theorem Inv.sound (h : s.Inv) (hstarts : s.StartsOnce operation) :
    ∀ effect ∈ (s.step operation).2, s.Sound effect := by
  by_cases hcreate : operation = .create
  · subst hcreate
    exact fun _ heffect => absurd heffect List.not_mem_nil
  · exact (h.moves hstarts hcreate).sound

theorem inv_start : Inv start where
  posted := fun _ _ h => absurd h List.not_mem_nil
  busy := by
    intro base p activity h
    cases h
  parent := by
    intro child p h
    cases h
  ok := fun p hp => absurd hp (Nat.not_lt_zero p)
  unborn := fun _ _ => rfl

/-! ## Programs without destroy() -/

/-- Nothing is posted, and no base handles anything. -/
def AtRest (s : Coroutines) : Prop := ∀ base, s.queue base = [] ∧ s.activity base = none

theorem AtRest.events (h : s.AtRest) (p : ℕ) : (s.frame p).events = [] := by
  change (s.promise p).eventBase.elim _ _ = _
  cases (s.promise p).eventBase with
  | none => rfl
  | some base => rw [Option.elim_some, eventsAt, (h base).1]; rfl

theorem AtRest.activity (h : s.AtRest) (p : ℕ) : (s.frame p).activity = none := by
  change (s.promise p).eventBase.bind _ = _
  cases (s.promise p).eventBase with
  | none => rfl
  | some base => rw [Option.bind_some, activityAt, (h base).2]; rfl

/-- A step of a well-formed program. -/
def WellFormed (s : Coroutines) (operation : Operation) : Prop :=
  s.StartsOnce operation ∧ operation.notDestroy = true

instance (s : Coroutines) (operation : Operation) : Decidable (s.WellFormed operation) :=
  inferInstanceAs (Decidable (_ ∧ _))

/-- What is asked of the frames of a program. -/
structure Lifetime (s : Coroutines) : Prop where
  once : ∀ p, (s.promise p).destroyed ≤ 1
  /-- Nothing refers to a frame that is destroyed. -/
  unreferenced : ∀ p, (s.promise p).destroyed ≠ 0 → some p ∉ s.tasks ∧ some p ∉ s.values ∧
    (∀ child, child < s.count → (s.promise child).suspendingPromise = some p →
      (s.promise child).point = .done) ∧
    ∀ base, (∀ event ∈ s.queue base, event.promise ≠ p) ∧
      ∀ activity, s.activity base ≠ some (p, activity)
  /-- In the end every frame is destroyed. -/
  freed : s.AtRest →
    (∀ p, p < s.count → (s.promise p).destroyed = 0 → (s.promise p).point = .done) →
    (∀ i, s.task i = none) → ∀ p, p < s.count → (s.promise p).destroyed = 1

theorem Inv.once (h : s.Inv) (p : ℕ) : (s.promise p).destroyed ≤ 1 := by
  rcases Nat.lt_or_ge p s.count with hlt | hge
  · rcases h.ok p hlt with halive | hgone
    · exact Nat.le_trans (Nat.le_of_eq halive.destroyed) (Nat.zero_le 1)
    · exact Nat.le_of_eq hgone.destroyed
  · have hunborn : s.promise p = .fresh := congrArg Frame.promise (h.unborn p hge)
    rw [hunborn]
    exact Nat.zero_le 1

/-- No child is left that waits to complete a promise. -/
theorem done_of_waiting (h : (s.frame p).waiting = 0) {child : ℕ} (hchild : child < s.count)
    (hparent : (s.promise child).suspendingPromise = some p) :
    (s.promise child).point = .done := by
  by_contra hpoint
  have hwaiting : holders s.values p + holders s.children p = 0 := h
  have hmem : some p ∈ s.children := by
    refine List.mem_map.mpr ⟨child, List.mem_range.mpr hchild, ?_⟩
    rw [Promise.completes, if_neg hpoint, hparent]
  exact holders_eq_zero_iff.mp (Nat.eq_zero_of_add_eq_zero_left hwaiting) hmem

theorem Inv.unreferenced (h : s.Inv) (hdestroyed : (s.promise p).destroyed ≠ 0) :
    some p ∉ s.tasks ∧ some p ∉ s.values ∧
      (∀ child, child < s.count → (s.promise child).suspendingPromise = some p →
        (s.promise child).point = .done) ∧
      ∀ base, (∀ event ∈ s.queue base, event.promise ≠ p) ∧
        ∀ activity, s.activity base ≠ some (p, activity) := by
  have hlt : p < s.count := by
    by_contra hge
    have hunborn : s.promise p = .fresh :=
      congrArg Frame.promise (h.unborn p (Nat.le_of_not_lt hge))
    rw [hunborn] at hdestroyed
    exact hdestroyed rfl
  have hgone : (s.frame p).Gone :=
    (h.ok p hlt).resolve_left fun halive => hdestroyed halive.destroyed
  have hwaiting : holders s.values p + holders s.children p = 0 := hgone.waiting
  refine ⟨holders_eq_zero_iff.mp hgone.tasks,
    holders_eq_zero_iff.mp (Nat.eq_zero_of_add_eq_zero_right hwaiting),
    fun child hchild hparent => done_of_waiting hgone.waiting hchild hparent, fun base => ⟨?_, ?_⟩⟩
  · rintro event hevent rfl
    have hbase := h.posted base event hevent
    have hevents : (s.promise event.promise).eventBase.elim [] (s.eventsAt event.promise) = [] :=
      hgone.events
    rw [hbase, Option.elim_some, eventsAt, List.map_eq_nil_iff, List.filter_eq_nil_iff] at hevents
    exact hevents event hevent (decide_eq_true rfl)
  · intro activity hbusy
    obtain ⟨-, -, hactivity, -⟩ := h.alive_of_activity hbusy
    rw [hgone.activity] at hactivity
    cases hactivity

/-- Without `destroy()` no promise has the force flag. -/
theorem Inv.force_step (h : s.Inv) (hwellFormed : s.WellFormed operation)
    (hforce : ∀ p, (s.promise p).forceDestroy = false) (p : ℕ) :
    ((next Coroutines.step s operation).promise p).forceDestroy = false := by
  by_cases hcreate : operation = .create
  · subst hcreate
    exact hforce p
  · rcases (h.moves hwellFormed.1 hcreate).frames p with hsame | ⟨hlt, kind, hasks, hstep⟩
    · exact (congrArg (fun f => f.promise.forceDestroy) hsame).trans (hforce p)
    · have hkind : kind ≠ .destroy := by
        rintro rfl
        obtain ⟨i, rfl, -⟩ := hasks
        cases hwellFormed.2
      exact ((h.ok p hlt).force_step hstep hkind).trans (hforce p)

theorem Inv.freed (h : s.Inv) (hforce : ∀ p, (s.promise p).forceDestroy = false)
    (hrest : s.AtRest)
    (hdone : ∀ p, p < s.count → (s.promise p).destroyed = 0 → (s.promise p).point = .done)
    (htasks : ∀ i, s.task i = none) (hp : p < s.count) : (s.promise p).destroyed = 1 := by
  refine Frame.Gone.destroyed ((h.ok p hp).resolve_left fun halive => ?_)
  have hheld : (s.frame p).tasks = 0 := by
    refine holders_eq_zero_iff.mpr fun hmem => ?_
    obtain ⟨i, hi⟩ := List.mem_iff_getElem?.mp hmem
    have hnone := htasks i
    rw [task, target, hi] at hnone
    cases hnone
  have hpoint : (s.frame p).promise.point = .done := hdone p hp halive.destroyed
  have hstands := halive.stands
  have hawaiter := halive.awaiter
  have hforce : (s.frame p).promise.forceDestroy = false := hforce p
  rw [Frame.Stands, hpoint] at hstands
  dsimp only at hstands
  rw [hrest.activity p] at hstands
  obtain ⟨-, -, -, ⟨-, hawaiting⟩ | hbusy⟩ := hstands
  · rw [hheld, hrest.events p, hforce, hawaiting] at hawaiter
    cases hawaiter
  · cases hbusy

/-- **Every frame is destroyed once.**  In a well-formed program no event is handled for a destroyed
promise, no coroutine is resumed that is done, no frame is destroyed that waits for a completion,
and in the end each is destroyed. -/
theorem lifetime_of_run (h : Along (next step) WellFormed start operations) :
    Along (next step) (fun s operation => ∀ effect ∈ (s.step operation).2, s.Sound effect) start
      operations ∧ Lifetime (exec (next step) start operations) := by
  have hkeep : ∀ s operation, (s.Inv ∧ ∀ p, (s.promise p).forceDestroy = false) →
      s.WellFormed operation →
      (next step s operation).Inv ∧ ∀ p, ((next step s operation).promise p).forceDestroy = false :=
    fun s operation hs hwellFormed =>
      ⟨hs.1.step hwellFormed.1, fun p => hs.1.force_step hwellFormed hs.2 p⟩
  have hstart : start.Inv ∧ ∀ p, (start.promise p).forceDestroy = false :=
    ⟨inv_start, fun _ => rfl⟩
  refine ⟨along_of_invariant hkeep (fun s operation hs hw => hs.1.sound hw.1) hstart h, ?_⟩
  obtain ⟨hinv, hforce⟩ := exec_of_invariant hkeep hstart h
  exact ⟨hinv.once, fun p hp => hinv.unreferenced hp,
    fun hrest hdone htasks p hp => hinv.freed hforce hrest hdone htasks hp⟩

/-- A task that nobody holds any more awaits a child, which awaits a future. -/
def awaitingRun : List Operation :=
  [.create, .startRunningOn 0 0, .release 0, .checkHandle 0, .create, .awaitTask 0 1,
    .checkDestroy 0, .checkHandle 0, .checkDestroy 0, .checkHandle 0, .awaitFuture 0 true,
    .checkDestroy 0, .complete 0, .checkHandle 0, .coReturn 0, .checkDestroy 0, .checkHandle 0,
    .release 1, .coReturn 0, .checkDestroy 0, .checkHandle 0, .checkDestroy 0]

theorem lifetime_awaitingRun :
    (Lifetime (exec (next step) start awaitingRun) ∧
      ((exec (next step) start awaitingRun).promise 0).destroyed = 1) ∧
      ((exec (next step) start awaitingRun).promise 1).destroyed = 1 :=
  ⟨⟨(lifetime_of_run (by decide)).2, by decide⟩, by decide⟩

end Programs

end Coroutines

end Coroutine

end TradingEngine
