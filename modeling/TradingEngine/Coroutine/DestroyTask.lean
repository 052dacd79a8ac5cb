import TradingEngine.Coroutine.FrameLifetime

/-!
# Coroutine/DestroyTask — what `destroy()` leaves behind

`destroy()` posts no event: it sets the force flag, which is looked at when a completion is handled.
So the frame is reclaimed if a completion still comes, and stays for good if the body returns first,
or awaits a future that nobody completes.
-/

namespace TradingEngine

namespace Coroutine

open Handles Run

namespace Frame

variable {f f' : Frame} {kind : Kind}

/-- A completion is still to come, or the coroutine can still await one. -/
def Reclaimable (f : Frame) : Prop :=
  f.promise.point ≠ .done ∧ (f.promise.point = .suspended → f.pending ≠ 0)

instance (f : Frame) : Decidable f.Reclaimable := inferInstanceAs (Decidable (_ ∧ (_ → _)))

/-- **A frame with the force flag is being reclaimed**, or will be. -/
def Reclaims (f : Frame) : Prop :=
  f.promise.forceDestroy = true → f.promise.destroyed = 0 →
    f.activity = some (.checking true) ∧ f.promise.point = .suspended ∨ f.Reclaimable

/-- **The step lemma.** -/
theorem Reclaims.step (h : f.Reclaims) (hok : f.Ok) (hstep : Step kind f f')
    (hdestroy : kind = .destroy → f.Reclaimable)
    (hsuspend : kind = .suspend 0 → f.promise.forceDestroy = false)
    (hreturn : kind = .coReturn → f.promise.forceDestroy = false) : f'.Reclaims := by
  intro hforce hdestroyed
  have halive : f.Alive := by
    refine hok.resolve_right fun hgone => ?_
    have hactivity := hgone.activity
    have htasks := hgone.tasks
    have hwaiting := hgone.waiting
    have hevents := hgone.events
    cases hstep <;> simp_all
  cases hstep with
  | start base parent hbase htasks =>
    obtain ⟨hpoint, -⟩ := halive.fresh_of_base hbase
    refine .inr ⟨?_, fun hsuspended => ?_⟩
    · change f.promise.point ≠ .done
      rw [hpoint]
      simp
    · have hsuspended : f.promise.point = .suspended := hsuspended
      rw [hpoint] at hsuspended
      cases hsuspended
  | drop hbase htasks => cases hdestroyed
  | release hbase htasks =>
    refine (h hforce hdestroyed).imp id fun hr => ⟨hr.1, fun hsuspended => ?_⟩
    rw [pending, List.count_append]
    exact hr.2 hsuspended
  | destroy hbase htasks => exact .inr (hdestroy rfl)
  | run hevents hidle => exact .inr ⟨by simp, by simp⟩
  | resume hevents hidle hnot =>
    have hforce : f.promise.forceDestroy = true := hforce
    rw [hnot] at hforce
    cases hforce
  | reclaim hevents hidle hset =>
    have hpending : f.pending ≠ 0 := by
      rw [pending, hevents, List.count_cons_self]
      omega
    obtain ⟨-, hpoint, -⟩ := halive.suspended_of_pending hpending
    exact .inl ⟨rfl, hpoint⟩
  | @removeAwaiter _ rest hevents hidle =>
    rcases h hforce hdestroyed with ⟨hbusy, -⟩ | hr
    · rw [hidle] at hbusy
      cases hbusy
    · refine .inr ⟨hr.1, fun hsuspended => ?_⟩
      have hpending := hr.2 hsuspended
      rw [pending, hevents, List.count_cons_of_ne (by simp)] at hpending
      exact hpending
  | forceDestroy hevents hidle => exact absurd (hevents ▸ List.mem_cons_self) halive.force
  | @suspend _ n hrunning hn =>
    have hne : n ≠ 0 := by
      rintro rfl
      have hnot := hsuspend rfl
      have hforce : f.promise.forceDestroy = true := hforce
      rw [hnot] at hforce
      cases hforce
    refine .inr ⟨by simp, fun _ => ?_⟩
    rw [pending]
    dsimp only
    omega
  | @complete _ n hwaiting =>
    refine (h hforce hdestroyed).imp id fun hr => ⟨hr.1, fun _ => ?_⟩
    rw [pending, List.count_append, List.count_singleton_self]
    omega
  | coReturn hrunning =>
    have hnot := hreturn rfl
    have hforce : f.promise.forceDestroy = true := hforce
    rw [hnot] at hforce
    cases hforce
  | @checked _ isForceDestroy hchecking =>
    by_cases hdestroys : Destroys f.promise isForceDestroy
    · rw [if_pos hdestroys] at hdestroyed
      cases hdestroyed
    · rw [if_neg hdestroys] at hforce hdestroyed ⊢
      rcases h hforce hdestroyed with ⟨hbusy, hpoint⟩ | hr
      · obtain ⟨-, -, hstands⟩ := halive.stands_of_checking hchecking
        rw [hchecking] at hbusy
        obtain rfl : isForceDestroy = true := by simpa using hbusy
        have hvalue : f.promise.hasSuspendValue = false := by
          have hboth := hstands
          simp only [Bool.true_eq_false, and_false, false_or, or_false] at hboth
          exact hboth.2.1
        exact absurd ⟨.inl rfl, hvalue⟩ hdestroys
      · exact .inr hr

end Frame

namespace Coroutines

variable {s : Coroutines} {p : ℕ} {operation : Operation} {operations : List Operation}

/-- **The steps after which the frame is reclaimed**: `destroy()` finds a task that is not done, and
not suspended without a completion to come, and the body of a task with the force flag does not
return and awaits no future without a function. -/
def Spares (s : Coroutines) : Operation → Prop
  | .destroy i => ∀ p ∈ s.task i, (s.frame p).Reclaimable
  | .awaitFuture base false => ∀ p ∈ s.runningOn base, (s.promise p).forceDestroy = false
  | .coReturn base => ∀ p ∈ s.runningOn base, (s.promise p).forceDestroy = false
  | _ => True

instance (s : Coroutines) : ∀ operation, Decidable (s.Spares operation)
  | .destroy i => inferInstanceAs (Decidable (∀ p ∈ s.task i, (s.frame p).Reclaimable))
  | .awaitFuture base false | .coReturn base =>
    inferInstanceAs (Decidable (∀ p ∈ s.runningOn base, (s.promise p).forceDestroy = false))
  | .awaitFuture _ true | .create | .move _ | .moveAssign _ _ | .release _ | .startRunningOn _ _
  | .awaitTask _ _ | .moveValue _ | .moveAssignValue _ _ | .complete _ | .checkHandle _
  | .checkDestroy _ => inferInstanceAs (Decidable True)

/-- What is asked of the tasks that were destroyed: when nothing is in flight, and nothing is left
that is to complete the task, its frame is destroyed once. -/
def Reclaimed (s : Coroutines) : Prop :=
  ∀ p, (s.promise p).forceDestroy = true → s.AtRest → some p ∉ s.values →
    (∀ child, child < s.count → (s.promise child).suspendingPromise = some p →
      (s.promise child).point = .done) →
    (s.promise p).destroyed = 1

/-- The condition for the frames. -/
theorem Inv.reclaims_step (h : s.Inv) (hstarts : s.StartsOnce operation)
    (hspares : s.Spares operation) (hreclaims : ∀ p, (s.frame p).Reclaims) (p : ℕ) :
    ((next Coroutines.step s operation).frame p).Reclaims := by
  by_cases hcreate : operation = .create
  · subst hcreate
    rw [h.frame_create]
    rcases eq_or_ne p s.count with rfl | hne
    · rw [Function.update_self]
      intro hforce
      cases hforce
    · rw [Function.update_of_ne hne]
      exact hreclaims p
  · rcases (h.moves hstarts hcreate).frames p with hsame | ⟨hlt, kind, hasks, hstep⟩
    · rw [next, hsame]
      exact hreclaims p
    · refine (hreclaims p).step (h.ok p hlt) hstep ?_ ?_ ?_
      · rintro rfl
        obtain ⟨i, rfl, hi⟩ := hasks
        exact hspares p hi
      · rintro rfl
        obtain ⟨base, rfl, hrunning⟩ := hasks rfl
        exact hspares p hrunning
      · rintro rfl
        obtain ⟨base, rfl, hrunning⟩ := hasks
        exact hspares p hrunning

theorem Inv.reclaimed (h : s.Inv) (hreclaims : ∀ p, (s.frame p).Reclaims) : s.Reclaimed := by
  intro p hforce hrest hvalues hchildren
  have hlt : p < s.count := by
    by_contra hge
    have hunborn : s.promise p = .fresh :=
      congrArg Frame.promise (h.unborn p (Nat.le_of_not_lt hge))
    rw [hunborn] at hforce
    cases hforce
  have hwaiting : (s.frame p).waiting = 0 := by
    change holders s.values p + holders s.children p = 0
    rw [holders_eq_zero_iff.mpr hvalues, Nat.zero_add]
    refine holders_eq_zero_iff.mpr fun hmem => ?_
    obtain ⟨child, hchild, hcompletes⟩ := List.mem_map.mp hmem
    rw [Promise.completes] at hcompletes
    split at hcompletes
    case isTrue => cases hcompletes
    case isFalse hpoint => exact hpoint (hchildren child (List.mem_range.mp hchild) hcompletes)
  have hpending : (s.frame p).pending = 0 := by
    rw [Frame.pending, hwaiting, hrest.events p]
    rfl
  refine Frame.Gone.destroyed ((h.ok p hlt).resolve_left fun halive => ?_)
  have hstands := halive.stands
  have hforce : (s.frame p).promise.forceDestroy = true := hforce
  rcases hreclaims p hforce halive.destroyed with ⟨hbusy, -⟩ | ⟨hpoint, hsuspended⟩
  · rw [hrest.activity p] at hbusy
    cases hbusy
  · rw [Frame.Stands, hrest.activity p, hrest.events p] at hstands
    have hawaiter := halive.awaiter
    have hle := (s.frame p).promise.hasAwaiter.toNat_le
    split at hstands
    case h_1 =>
      obtain ⟨-, -, ⟨-, htasks, -⟩ | ⟨-, rest, hrun, -⟩⟩ := hstands
      · rw [htasks, hforce, Bool.toNat_true] at hawaiter
        omega
      · cases hrun
    case h_2 =>
      obtain ⟨-, hbusy, -⟩ := hstands
      cases hbusy
    case h_3 hpoint' => exact hsuspended hpoint' hpending
    case h_4 hdone => exact hpoint hdone

/-- **A destroyed task is reclaimed.**  In every program that starts its tasks once no task is
resumed that was destroyed while it was suspended, and no frame is destroyed twice; in one whose
steps spare the tasks that were destroyed, all of these are reclaimed. -/
theorem reclaimed_of_run (h : Along (next step) StartsOnce start operations) :
    Along (next step) (fun s operation => ∀ effect ∈ (s.step operation).2, s.Sound effect) start
        operations ∧
      (∀ p, ((exec (next step) start operations).promise p).destroyed ≤ 1) ∧
      (Along (next step) Spares start operations →
        Reclaimed (exec (next step) start operations)) := by
  have hinv := exec_of_invariant (fun _ _ hs hstarts => Inv.step hs hstarts) inv_start h
  refine ⟨along_of_invariant (fun _ _ hs hstarts => Inv.step hs hstarts)
    (fun _ _ hs hstarts => Inv.sound hs hstarts) inv_start h, hinv.once, fun hspares => ?_⟩
  have hreclaims : (exec (next step) start operations).Inv ∧
      ∀ p, ((exec (next step) start operations).frame p).Reclaims := by
    have hkeep : ∀ (s : Coroutines) operation, (s.Inv ∧ ∀ p, (s.frame p).Reclaims) →
        (s.StartsOnce operation ∧ s.Spares operation) →
        (next step s operation).Inv ∧ ∀ p, ((next step s operation).frame p).Reclaims :=
      fun s operation hs hsteps => ⟨hs.1.step hsteps.1, hs.1.reclaims_step hsteps.1 hsteps.2 hs.2⟩
    refine exec_of_invariant hkeep ⟨inv_start, fun p hforce => ?_⟩ (along_and.mpr ⟨h, hspares⟩)
    cases hforce
  exact hreclaims.1.reclaimed hreclaims.2

/-- A task is destroyed while it awaits a future. -/
def destroyRun : List Operation :=
  [.create, .startRunningOn 0 0, .checkHandle 0, .awaitFuture 0 true, .checkDestroy 0, .destroy 0,
    .complete 0, .checkHandle 0, .checkDestroy 0]

theorem reclaimed_destroyRun :
    Along (next step) Spares start destroyRun ∧
      ((exec (next step) start destroyRun).promise 0).forceDestroy = true ∧
      Reclaimed (exec (next step) start destroyRun) :=
  ⟨by decide, by decide, (reclaimed_of_run (by decide)).2.2 (by decide)⟩

/-- A task is destroyed when it is done. -/
def leakRun : List Operation :=
  [.create, .startRunningOn 0 0, .checkHandle 0, .coReturn 0, .checkDestroy 0, .destroy 0]

/-- **It is never reclaimed**: nothing is in flight, and its frame is still there. -/
theorem leakRun_not_reclaimed :
    Along (next step) StartsOnce start leakRun ∧ ¬ Reclaimed (exec (next step) start leakRun) := by
  refine ⟨by decide, fun hreclaimed => ?_⟩
  have hrest : AtRest (exec (next step) start leakRun) := by
    intro base
    match base with
    | 0 => exact ⟨by decide, by decide⟩
    | base + 1 => exact ⟨rfl, rfl⟩
  have hone := hreclaimed 0 (by decide) hrest (by decide) (by decide)
  have hzero : ((exec (next step) start leakRun).promise 0).destroyed = 0 := by decide
  rw [hzero] at hone
  cases hone

end Coroutines

end Coroutine

end TradingEngine
