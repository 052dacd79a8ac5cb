import TradingEngine.Machinery.Run
import Mathlib.Data.List.Nodup
import Mathlib.Logic.Function.Basic

/-!
# Coroutine/EpollLoop — the loop and the objects of a batch

`epoll_wait` gives out pointers to the objects that are registered, and the loop goes through them
while their handlers remove and destroy objects.  An object is known by its address, so it may be
recycled by a pool or by the allocator; its registrations are numbered to tell it from what stood at
its address before.
-/

namespace TradingEngine

open Run

/-- `epoll_event::events`. -/
structure EventMask where
  epollIn : Bool
  epollOut : Bool
  epollErr : Bool
  epollHup : Bool
  epollRdHup : Bool
  deriving DecidableEq, Repr

/-- `event & (EPOLLERR | EPOLLHUP | EPOLLRDHUP)`. -/
def EventMask.hangsUp (mask : EventMask) : Bool :=
  mask.epollErr || mask.epollHup || mask.epollRdHup

/-- A `SystemIOObject` as the loop sees it: `fd` is `none` for -1, `registration` numbers the
descriptor that it lives with, and `clearsFd` says that its `release` sets `fd` to -1. -/
structure LoopObject where
  fd : Option ℕ
  registration : Option ℕ
  clearsFd : Bool
  destroyed : Bool
  deriving DecidableEq, Repr

/-- An entry of a batch, with the registration it was reported for. -/
structure LoopEntry where
  object : ℕ
  mask : EventMask
  registration : ℕ
  deriving DecidableEq, Repr

/-- Where the loop is: in `epoll_wait`, between two entries, in a handler of an entry whose `fd` it
has read, in the `release` of its own `del_fd`, or at an end. -/
inductive LoopPhase
  | waiting
  | between
  | reading (entry : LoopEntry) (fd : Option ℕ)
  | writing (entry : LoopEntry) (fd : Option ℕ)
  | releasing
  | stopped
  deriving DecidableEq, Repr

/-- An `EpollBase` with its objects, and the object each open descriptor belongs to. The null
pointer of the shutdown event is `none` in a batch. -/
structure EpollLoop where
  objects : ℕ → LoopObject
  owner : ℕ → Option ℕ
  registrations : ℕ
  phase : LoopPhase
  batch : List (Option LoopEntry)

/-- A step of the loop, or of a handler. -/
inductive LoopStep
  | construct (object : ℕ) (clearsFd : Bool)
  | start (object fd : ℕ)
  | startFails (object : ℕ) (fd : Option ℕ)
  | delFd (object : ℕ)
  | destroy (object : ℕ)
  | wait (batch : List (Option LoopEntry))
  | next
  | handlerReturns (fails : Bool)
  | releaseReturns
  deriving DecidableEq, Repr

/-- What a step does: the loop uses the object of an entry, a descriptor is closed for an object, an
object is released. -/
inductive LoopEffect
  | used (object registration : ℕ)
  | closed (fd object : ℕ)
  | released (object : ℕ)
  deriving DecidableEq, Repr

namespace EpollLoop

/-- An event base without objects. -/
def start : EpollLoop where
  objects := fun _ => ⟨none, none, false, true⟩
  owner := fun _ => none
  registrations := 0
  phase := .waiting
  batch := []

/-- An object is written. -/
def write (s : EpollLoop) (o : ℕ) (object : LoopObject) : EpollLoop :=
  { s with objects := Function.update s.objects o object }

/-- `EpollBase::del_fd`. -/
def delFd (s : EpollLoop) (fd : Option ℕ) (o : ℕ) : EpollLoop × List LoopEffect :=
  match fd with
  | none => (s, [])
  | some descriptor =>
    let object := s.objects o
    ({ s.write o { object with
        fd := if object.clearsFd = true then none else object.fd
        registration := none } with
      owner := Function.update s.owner descriptor none },
      [.closed descriptor o, .released o])

/-- The loop calls `del_fd` for an entry. -/
def dispose (s : EpollLoop) (entry : LoopEntry) (fd : Option ℕ) : EpollLoop × List LoopEffect :=
  let deleted := s.delFd fd entry.object
  ({ deleted.1 with phase := .releasing },
    .used entry.object entry.registration :: deleted.2)

/-- `if (event & EPOLLOUT)`. -/
def checkWrite (s : EpollLoop) (entry : LoopEntry) (fd : Option ℕ) :
    EpollLoop × List LoopEffect :=
  if entry.mask.epollOut = true then
    ({ s with phase := .writing entry fd }, [.used entry.object entry.registration])
  else ({ s with phase := .between }, [])

/-- **A step.** -/
def step (s : EpollLoop) : LoopStep → EpollLoop × List LoopEffect
  | .construct o clearsFd => (s.write o ⟨none, none, clearsFd, false⟩, [])
  -- `start_living_system_io_object`; if `activate` fails, `del_fd` comes next
  | .start o fd =>
    ({ s.write o { s.objects o with fd := some fd, registration := some s.registrations } with
      owner := Function.update s.owner fd (some o)
      registrations := s.registrations + 1 }, [])
  | .startFails o fd => (s.write o { s.objects o with fd := fd }, [])
  | .delFd o => s.delFd (s.objects o).fd o
  | .destroy o =>
    let deleted := s.delFd (s.objects o).fd o
    (deleted.1.write o { deleted.1.objects o with destroyed := true }, deleted.2)
  | .wait batch =>
    match s.phase with
    | .waiting => ({ s with phase := .between, batch := batch }, [])
    | _ => (s, [])
  | .next =>
    match s.phase, s.batch with
    | .between, [] => ({ s with phase := .waiting }, [])
    | .between, none :: _ => ({ s with phase := .stopped, batch := [] }, [])
    | .between, some entry :: rest =>
      let fd := (s.objects entry.object).fd
      let s := { s with batch := rest }
      if entry.mask.hangsUp = true then s.dispose entry fd
      else if entry.mask.epollIn = true then
        ({ s with phase := .reading entry fd }, [.used entry.object entry.registration])
      else s.checkWrite entry fd
    | _, _ => (s, [])
  | .handlerReturns fails =>
    match s.phase with
    | .reading entry fd => if fails = true then s.dispose entry fd else s.checkWrite entry fd
    | .writing entry fd =>
      if fails = true then s.dispose entry fd else ({ s with phase := .between }, [])
    | _ => (s, [])
  | .releaseReturns =>
    match s.phase with
    | .releasing => ({ s with phase := .between }, [])
    | _ => (s, [])

/-- The entry is for a registered object. -/
def Current (s : EpollLoop) (entry : LoopEntry) : Prop :=
  (s.objects entry.object).registration = some entry.registration

instance (s : EpollLoop) (entry : LoopEntry) : Decidable (s.Current entry) :=
  inferInstanceAs (Decidable (_ = _))

/-- The entries of a batch. -/
def entries (batch : List (Option LoopEntry)) : List LoopEntry := batch.filterMap id

/-- The entries that are still to come: those before a shutdown. -/
def upcoming : List (Option LoopEntry) → List LoopEntry
  | some entry :: rest => entry :: upcoming rest
  | _ => []

/-- The steps there are: a descriptor that is given out was not open, a handler removes or destroys
what is registered, or destroys what has no descriptor, and `epoll_wait` reports registered objects,
each once. -/
def Legal (s : EpollLoop) : LoopStep → Prop
  | .construct o _ => (s.objects o).destroyed = true
  | .start o fd => (s.objects o).destroyed = false ∧ (s.objects o).registration = none ∧
    s.owner fd = none
  | .startFails o _ => (s.objects o).destroyed = false ∧ (s.objects o).registration = none
  | .delFd o => (s.objects o).registration ≠ none
  | .destroy o => (s.objects o).destroyed = false ∧
    ((s.objects o).registration ≠ none ∨ (s.objects o).fd = none)
  | .wait batch => (∀ entry ∈ entries batch, s.Current entry) ∧
    ((entries batch).map (·.object)).Nodup
  | .next | .handlerReturns _ | .releaseReturns => True

instance (s : EpollLoop) : ∀ step, Decidable (s.Legal step)
  | .construct _ _ => inferInstanceAs (Decidable (_ = _))
  | .start _ _ => inferInstanceAs (Decidable (_ ∧ _ ∧ _))
  | .startFails _ _ => inferInstanceAs (Decidable (_ ∧ _))
  | .delFd _ => inferInstanceAs (Decidable (_ ≠ _))
  | .destroy _ => inferInstanceAs (Decidable (_ ∧ (_ ∨ _)))
  | .wait batch => inferInstanceAs (Decidable ((∀ entry ∈ entries batch, _) ∧ _))
  | .next | .handlerReturns _ | .releaseReturns => inferInstanceAs (Decidable True)

/-- A handler that has removed its own object does not ask for it to be removed again, nor does its
entry go on to `handle_write`. -/
def CarefulReturn (s : EpollLoop) (fails : Bool) : LoopPhase → Prop
  | .reading entry _ => s.Current entry ∨ fails = false ∧ entry.mask.epollOut = false
  | .writing entry _ => s.Current entry ∨ fails = false
  | _ => True

instance (s : EpollLoop) (fails : Bool) : ∀ phase, Decidable (s.CarefulReturn fails phase)
  | .reading _ _ => inferInstanceAs (Decidable (_ ∨ _ ∧ _))
  | .writing _ _ => inferInstanceAs (Decidable (_ ∨ _))
  | .waiting | .between | .releasing | .stopped => inferInstanceAs (Decidable True)

/-- **The steps that keep the batch true.**  A handler removes or destroys no object that has an
entry later in the batch. -/
def Careful (s : EpollLoop) : LoopStep → Prop
  | .delFd o | .destroy o => ∀ entry ∈ upcoming s.batch, entry.object ≠ o
  | .handlerReturns fails => s.CarefulReturn fails s.phase
  | .construct _ _ | .start _ _ | .startFails _ _ | .wait _ | .next | .releaseReturns => True

instance (s : EpollLoop) : ∀ step, Decidable (s.Careful step)
  | .delFd _ | .destroy _ => inferInstanceAs (Decidable (∀ entry ∈ upcoming s.batch, _))
  | .handlerReturns fails => inferInstanceAs (Decidable (s.CarefulReturn fails s.phase))
  | .construct _ _ | .start _ _ | .startFails _ _ | .wait _ | .next | .releaseReturns =>
    inferInstanceAs (Decidable True)

/-- What is asked of an effect, in the state before the step. -/
def Sound (s : EpollLoop) : LoopEffect → Prop
  | .used o registration => (s.objects o).registration = some registration ∧
    (s.objects o).destroyed = false
  | .closed fd o => s.owner fd = some o
  | .released o => (s.objects o).registration ≠ none

instance (s : EpollLoop) : ∀ effect, Decidable (s.Sound effect)
  | .used _ _ => inferInstanceAs (Decidable (_ ∧ _))
  | .closed _ _ => inferInstanceAs (Decidable (_ = _))
  | .released _ => inferInstanceAs (Decidable (_ ≠ _))

/-! ## The invariant -/

variable {s : EpollLoop} {o : ℕ} {entry : LoopEntry} {fd : Option ℕ}

/-- The handler that runs was called for an entry that has no later one with its object, and what
the loop read of a registered object is its descriptor. -/
def Handles (s : EpollLoop) : LoopPhase → Prop
  | .reading entry fd | .writing entry fd =>
    entry.registration < s.registrations ∧
      (∀ later ∈ upcoming s.batch, later.object ≠ entry.object) ∧
      (s.Current entry → fd = (s.objects entry.object).fd)
  | .waiting | .between | .releasing | .stopped => True

/-- **The invariant.**  A registered object has a descriptor that belongs to it, and the entries to
come are for registered objects, each for another one. -/
structure Inv (s : EpollLoop) : Prop where
  registered : ∀ o n, (s.objects o).registration = some n → (s.objects o).destroyed = false ∧
    n < s.registrations ∧ ∃ fd, (s.objects o).fd = some fd ∧ s.owner fd = some o
  current : ∀ entry ∈ upcoming s.batch, s.Current entry
  nodup : ((upcoming s.batch).map (·.object)).Nodup
  handles : s.Handles s.phase

theorem inv_start : Inv start where
  registered := by
    intro o n h
    cases h
  current := by
    intro entry h
    cases h
  nodup := List.nodup_nil
  handles := trivial

/-- A phase may follow that the loop may be in. -/
theorem Inv.of_phase (h : Inv s) {phase : LoopPhase} (hphase : s.Handles phase) :
    Inv { s with phase := phase } :=
  ⟨h.registered, h.current, h.nodup, hphase⟩

theorem upcoming_sublist (batch : List (Option LoopEntry)) :
    (upcoming batch).Sublist (entries batch) := by
  induction batch with
  | nil => exact List.Sublist.refl _
  | cons head rest ih =>
    cases head with
    | none => exact List.nil_sublist _
    | some entry => exact ih.cons_cons entry

/-- An object without a registration has no entry to come. -/
theorem Inv.not_upcoming (h : Inv s) (ho : (s.objects o).registration = none) :
    ∀ entry ∈ upcoming s.batch, entry.object ≠ o := by
  rintro entry hentry rfl
  have hcurrent := h.current entry hentry
  rw [Current, ho] at hcurrent
  cases hcurrent

/-! ## An object that is not registered is written -/

theorem write_self (s : EpollLoop) (o : ℕ) (object : LoopObject) :
    (s.write o object).objects o = object :=
  Function.update_self ..

theorem write_of_ne {o' : ℕ} (s : EpollLoop) (object : LoopObject) (hne : o' ≠ o) :
    (s.write o object).objects o' = s.objects o' :=
  Function.update_of_ne hne ..

/-- **An object that nothing later in the batch is for loses its registration**, and no other one
loses its descriptor. -/
theorem Inv.cleared (h : Inv s) (hlater : ∀ entry ∈ upcoming s.batch, entry.object ≠ o)
    {object : LoopObject} (hnone : object.registration = none) {owner : ℕ → Option ℕ}
    (howner : ∀ fd o', o' ≠ o → s.owner fd = some o' → owner fd = some o') :
    Inv { s.write o object with owner := owner } := by
  have hself : ({ s.write o object with owner := owner } : EpollLoop).objects o = object :=
    write_self s o object
  have hother : ∀ o', o' ≠ o →
      ({ s.write o object with owner := owner } : EpollLoop).objects o' = s.objects o' :=
    fun o' hne => write_of_ne s object hne
  have hne : ∀ o' n, (({ s.write o object with owner := owner } : EpollLoop).objects
      o').registration = some n → o' ≠ o := by
    rintro o' n hn rfl
    rw [hself, hnone] at hn
    cases hn
  refine ⟨fun o' n hn => ?_, fun entry hentry => ?_, h.nodup, ?_⟩
  · have hne := hne o' n hn
    rw [hother o' hne] at hn ⊢
    obtain ⟨halive, hlt, fd, hfd, howned⟩ := h.registered o' n hn
    exact ⟨halive, hlt, fd, hfd, howner fd o' hne howned⟩
  · rw [Current, hother _ (hlater entry hentry)]
    exact h.current entry hentry
  · have hhandles := h.handles
    show Handles _ s.phase
    cases hphase : s.phase with
    | reading entry fd | writing entry fd =>
      rw [hphase] at hhandles
      obtain ⟨hlt, hlater', hfd⟩ := hhandles
      refine ⟨hlt, hlater', fun hcurrent => ?_⟩
      have hne := hne _ _ hcurrent
      rw [Current, hother _ hne] at hcurrent
      rw [hother _ hne]
      exact hfd hcurrent
    | _ => trivial

/-- An object that is not registered is written. -/
theorem Inv.write (h : Inv s) (ho : (s.objects o).registration = none) {object : LoopObject}
    (hnone : object.registration = none) : Inv (s.write o object) :=
  h.cleared (h.not_upcoming ho) hnone fun _ _ _ => id

/-! ## The operations -/

/-- `del_fd` of a registered object, with its descriptor. -/
theorem Inv.delFd (h : Inv s) {n : ℕ} (hn : (s.objects o).registration = some n)
    (hlater : ∀ entry ∈ upcoming s.batch, entry.object ≠ o) (hfd : fd = (s.objects o).fd) :
    Inv (s.delFd fd o).1 := by
  obtain ⟨-, -, descriptor, hdescriptor, howned⟩ := h.registered o n hn
  rw [hfd, hdescriptor]
  refine h.cleared hlater rfl fun fd o' hne howner => ?_
  have hfd : fd ≠ descriptor := by
    rintro rfl
    rw [howned] at howner
    exact hne (Option.some.inj howner).symm
  exact (Function.update_of_ne hfd ..).trans howner

/-- **`del_fd` of a registered object is sound.** -/
theorem Inv.sound_delFd (h : Inv s) {n : ℕ} (hn : (s.objects o).registration = some n)
    (hfd : fd = (s.objects o).fd) : ∀ effect ∈ (s.delFd fd o).2, s.Sound effect := by
  obtain ⟨-, -, descriptor, hdescriptor, howned⟩ := h.registered o n hn
  rw [hfd, hdescriptor]
  intro effect heffect
  rcases List.mem_pair.mp heffect with rfl | rfl
  · exact howned
  · intro hnone
    rw [hn] at hnone
    cases hnone

/-- What the loop does with a registered object is sound. -/
theorem Inv.sound_used (h : Inv s) (hcurrent : s.Current entry) :
    s.Sound (.used entry.object entry.registration) :=
  ⟨hcurrent, (h.registered _ _ hcurrent).1⟩

/-- The loop removes the object of the entry it handles. -/
theorem Inv.dispose (h : Inv s) (hhandles : s.Handles (.reading entry fd))
    (hcurrent : s.Current entry) : Inv (s.dispose entry fd).1 :=
  (h.delFd hcurrent hhandles.2.1 (hhandles.2.2 hcurrent)).of_phase trivial

theorem Inv.sound_dispose (h : Inv s) (hhandles : s.Handles (.reading entry fd))
    (hcurrent : s.Current entry) : ∀ effect ∈ (s.dispose entry fd).2, s.Sound effect := by
  intro effect heffect
  rcases List.mem_cons.mp heffect with rfl | hdeleted
  · exact h.sound_used hcurrent
  · exact h.sound_delFd hcurrent (hhandles.2.2 hcurrent) effect hdeleted

/-- The loop goes on to `handle_write`, or to the next entry. -/
theorem Inv.checkWrite (h : Inv s) (hhandles : s.Handles (.reading entry fd)) :
    Inv (s.checkWrite entry fd).1 := by
  rw [EpollLoop.checkWrite]
  split
  · exact h.of_phase hhandles
  · exact h.of_phase trivial

theorem Inv.sound_checkWrite (h : Inv s)
    (hcareful : s.Current entry ∨ entry.mask.epollOut = false) :
    ∀ effect ∈ (s.checkWrite entry fd).2, s.Sound effect := by
  rw [EpollLoop.checkWrite]
  split
  case isTrue hout =>
    intro effect heffect
    obtain rfl := List.mem_singleton.mp heffect
    refine h.sound_used (hcareful.resolve_right fun hfalse => ?_)
    rw [hfalse] at hout
    cases hout
  case isFalse => exact fun _ heffect => absurd heffect List.not_mem_nil

/-- An object gets a descriptor that was not open. -/
theorem Inv.startLiving (h : Inv s) {descriptor : ℕ} (halive : (s.objects o).destroyed = false)
    (ho : (s.objects o).registration = none) (hfree : s.owner descriptor = none) :
    Inv (next step s (.start o descriptor)) := by
  have hlater := h.not_upcoming ho
  have hself : (next step s (.start o descriptor)).objects o =
      { s.objects o with fd := some descriptor, registration := some s.registrations } :=
    write_self s o _
  have hother : ∀ o', o' ≠ o → (next step s (.start o descriptor)).objects o' = s.objects o' :=
    fun o' hne => write_of_ne s _ hne
  refine ⟨fun o' n hn => ?_, fun entry hentry => ?_, h.nodup, ?_⟩
  · by_cases hne : o' = o
    · subst hne
      rw [hself] at hn ⊢
      obtain rfl := Option.some.inj hn
      exact ⟨halive, Nat.lt_succ_self _, descriptor, rfl, Function.update_self ..⟩
    · rw [hother o' hne] at hn ⊢
      obtain ⟨halive', hlt, fd, hfd, howned⟩ := h.registered o' n hn
      have hfd' : fd ≠ descriptor := by
        rintro rfl
        rw [hfree] at howned
        cases howned
      exact ⟨halive', Nat.lt_succ_of_lt hlt, fd, hfd,
        (Function.update_of_ne hfd' ..).trans howned⟩
  · rw [Current, hother _ (hlater entry hentry)]
    exact h.current entry hentry
  · have hhandles := h.handles
    show Handles _ s.phase
    cases hphase : s.phase with
    | reading entry fd | writing entry fd =>
      rw [hphase] at hhandles
      obtain ⟨hlt, hlater', hfd⟩ := hhandles
      refine ⟨Nat.lt_succ_of_lt hlt, hlater', fun hcurrent => ?_⟩
      by_cases hne : entry.object = o
      · -- its new registration is a later one
        rw [Current, hne, hself] at hcurrent
        exact absurd (Option.some.inj hcurrent) (Nat.ne_of_gt hlt)
      · rw [Current, hother _ hne] at hcurrent
        rw [hother _ hne]
        exact hfd hcurrent
    | _ => trivial

/-- A destroyed object is not registered. -/
theorem Inv.registration_of_destroyed (h : Inv s) (ho : (s.objects o).destroyed = true) :
    (s.objects o).registration = none := by
  cases hn : (s.objects o).registration with
  | none => rfl
  | some n =>
    have halive := (h.registered o n hn).1
    rw [ho] at halive
    cases halive

/-- An object is destroyed, and removed first if it has a descriptor. -/
theorem Inv.destroyed (h : Inv s)
    (ho : (s.objects o).registration ≠ none ∨ (s.objects o).fd = none)
    (hlater : ∀ entry ∈ upcoming s.batch, entry.object ≠ o) :
    Inv (next step s (.destroy o)) := by
  cases hn : (s.objects o).registration with
  | none =>
    have hfd := ho.resolve_left (fun hne => hne hn)
    rw [Run.next, EpollLoop.step, hfd]
    exact h.write hn hn
  | some n =>
    obtain ⟨-, -, descriptor, hdescriptor, -⟩ := h.registered o n hn
    have hdeleted := h.delFd hn hlater rfl
    rw [Run.next, EpollLoop.step]
    rw [hdescriptor] at hdeleted ⊢
    have hnone : ((s.delFd (some descriptor) o).1.objects o).registration = none :=
      congrArg (·.registration) (write_self s o _)
    exact hdeleted.write hnone hnone

/-! ## The next entry -/

/-- **The loop takes an entry**: its object is registered, it has none of the later ones, and the
descriptor that is read is its own. -/
theorem Inv.taken (h : Inv s) {rest : List (Option LoopEntry)}
    (hbatch : s.batch = some entry :: rest) (hphase : s.phase = .between) :
    Inv { s with batch := rest } ∧ s.Current entry ∧
      Handles { s with batch := rest } (.reading entry (s.objects entry.object).fd) := by
  have hcurrent := h.current
  have hnodup := h.nodup
  rw [hbatch, upcoming] at hcurrent hnodup
  obtain ⟨hnot, hnodup⟩ := List.nodup_cons.mp hnodup
  obtain ⟨hentry, hrest⟩ := List.forall_mem_cons.mp hcurrent
  refine ⟨⟨h.registered, hrest, hnodup, ?_⟩, hentry, (h.registered _ _ hentry).2.1, ?_,
    fun _ => rfl⟩
  · show Handles _ s.phase
    rw [hphase]
    exact trivial
  · exact fun later hlater heq => hnot (List.mem_map.mpr ⟨later, hlater, heq⟩)

/-! ## Steps and runs -/

/-- The object is still registered when its handler fails. -/
theorem CarefulReturn.current {fails : Bool} (hfails : fails = true) :
    s.CarefulReturn fails (.reading entry fd) ∨ s.CarefulReturn fails (.writing entry fd) →
      s.Current entry := by
  subst hfails
  rintro ((hcurrent | ⟨hfalse, -⟩) | (hcurrent | hfalse))
  · exact hcurrent
  · cases hfalse
  · exact hcurrent
  · cases hfalse

/-- **A careful step keeps the invariant.** -/
theorem Inv.step (h : Inv s) {event : LoopStep} (hlegal : s.Legal event)
    (hcareful : s.Careful event) : Inv (next EpollLoop.step s event) := by
  cases event with
  | construct o clearsFd => exact h.write (h.registration_of_destroyed hlegal) rfl
  | start o fd => exact h.startLiving hlegal.1 hlegal.2.1 hlegal.2.2
  | startFails o fd => exact h.write hlegal.2 hlegal.2
  | delFd o =>
    obtain ⟨n, hn⟩ := Option.ne_none_iff_exists'.mp hlegal
    exact h.delFd hn hcareful rfl
  | destroy o => exact h.destroyed hlegal.2 hcareful
  | wait batch =>
    rw [Run.next, EpollLoop.step]
    split
    case h_1 =>
      have hsub := upcoming_sublist batch
      exact ⟨h.registered, fun entry hentry => hlegal.1 entry (hsub.subset hentry),
        hlegal.2.sublist (hsub.map _), trivial⟩
    case h_2 => exact h
  | next =>
    rw [Run.next, EpollLoop.step]
    split
    case h_1 => exact h.of_phase trivial
    case h_2 hphase hbatch => exact ⟨h.registered, by simp [upcoming], List.nodup_nil, trivial⟩
    case h_3 entry rest hphase hbatch =>
      obtain ⟨htaken, hcurrent, hhandles⟩ := h.taken hbatch hphase
      dsimp only
      split
      case isTrue => exact htaken.dispose hhandles hcurrent
      case isFalse =>
        split
        case isTrue => exact htaken.of_phase hhandles
        case isFalse => exact htaken.checkWrite hhandles
    case h_4 => exact h
  | handlerReturns fails =>
    have hhandles := h.handles
    rw [Careful] at hcareful
    rw [Run.next, EpollLoop.step]
    split
    case h_1 entry fd hphase =>
      rw [hphase] at hhandles hcareful
      split
      case isTrue hfails => exact h.dispose hhandles (CarefulReturn.current hfails (.inl hcareful))
      case isFalse => exact h.checkWrite hhandles
    case h_2 entry fd hphase =>
      rw [hphase] at hhandles hcareful
      split
      case isTrue hfails => exact h.dispose hhandles (CarefulReturn.current hfails (.inr hcareful))
      case isFalse => exact h.of_phase trivial
    case h_3 => exact h
  | releaseReturns =>
    rw [Run.next, EpollLoop.step]
    split
    case h_1 => exact h.of_phase trivial
    case h_2 => exact h

/-- **A careful step is sound.** -/
theorem Inv.sound (h : Inv s) {event : LoopStep} (hlegal : s.Legal event)
    (hcareful : s.Careful event) : ∀ effect ∈ (s.step event).2, s.Sound effect := by
  cases event with
  | construct | start | startFails => exact fun _ heffect => absurd heffect List.not_mem_nil
  | delFd o =>
    obtain ⟨n, hn⟩ := Option.ne_none_iff_exists'.mp hlegal
    exact h.sound_delFd hn rfl
  | destroy o =>
    cases hn : (s.objects o).registration with
    | some n => exact h.sound_delFd hn rfl
    | none =>
      rw [EpollLoop.step, hlegal.2.resolve_left (fun hne => hne hn)]
      exact fun _ heffect => absurd heffect List.not_mem_nil
  | wait batch =>
    rw [EpollLoop.step]
    split <;> exact fun _ heffect => absurd heffect List.not_mem_nil
  | next =>
    rw [EpollLoop.step]
    split
    case h_3 entry rest hphase hbatch =>
      obtain ⟨htaken, hcurrent, hhandles⟩ := h.taken hbatch hphase
      dsimp only
      split
      case isTrue => exact htaken.sound_dispose hhandles hcurrent
      case isFalse =>
        split
        case isTrue =>
          intro effect heffect
          obtain rfl := List.mem_singleton.mp heffect
          exact h.sound_used hcurrent
        case isFalse => exact htaken.sound_checkWrite (.inl hcurrent)
    all_goals exact fun _ heffect => absurd heffect List.not_mem_nil
  | handlerReturns fails =>
    have hhandles := h.handles
    rw [Careful] at hcareful
    rw [EpollLoop.step]
    split
    case h_1 entry fd hphase =>
      rw [hphase] at hhandles hcareful
      split
      case isTrue hfails =>
        exact h.sound_dispose hhandles (CarefulReturn.current hfails (.inl hcareful))
      case isFalse => exact h.sound_checkWrite (hcareful.imp_right And.right)
    case h_2 entry fd hphase =>
      rw [hphase] at hhandles hcareful
      split
      case isTrue hfails =>
        exact h.sound_dispose hhandles (CarefulReturn.current hfails (.inr hcareful))
      case isFalse => exact fun _ heffect => absurd heffect List.not_mem_nil
    case h_3 => exact fun _ heffect => absurd heffect List.not_mem_nil
  | releaseReturns =>
    rw [EpollLoop.step]
    split <;> exact fun _ heffect => absurd heffect List.not_mem_nil

/-- **The loop touches no object that is gone.**  In every run whose steps are careful, what the
loop dispatches to is registered as it was when the batch was taken, no object is released without a
registration, and each descriptor that is closed belongs to the object it is closed for. -/
theorem dispatched_of_run {steps : List LoopStep} (h : Along (next step) Legal start steps)
    (hcareful : Along (next step) Careful start steps) :
    Along (next step) (fun s event => ∀ effect ∈ (s.step event).2, s.Sound effect) start steps := by
  have hkeep : ∀ s event, Inv s → Legal s event ∧ Careful s event → Inv (next step s event) :=
    fun _ _ hs hevent => hs.step hevent.1 hevent.2
  exact along_of_invariant hkeep (fun _ _ hs hevent => hs.sound hevent.1 hevent.2) inv_start
    (along_and.mpr ⟨h, hcareful⟩)

/-- Two connections are read in one batch. The handler of the first one removes it and starts a
third object with its descriptor; the second one is hung up. -/
def twoConnectionsRun : List LoopStep :=
  [.construct 0 true, .construct 1 true, .construct 2 true, .start 0 7, .start 1 8,
    .wait [some ⟨0, ⟨true, false, false, false, false⟩, 0⟩,
      some ⟨1, ⟨true, false, false, false, true⟩, 1⟩],
    .next, .delFd 0, .start 2 7, .handlerReturns false, .next, .destroy 2, .releaseReturns, .next]

theorem dispatched_twoConnectionsRun :
    Along (next step) (fun s event => ∀ effect ∈ (s.step event).2, s.Sound effect) start
      twoConnectionsRun :=
  dispatched_of_run (by decide) (by decide)

/-- The handler of the first connection destroys the second one, which is in the same batch. -/
def destroyedInBatchRun : List LoopStep :=
  [.construct 0 true, .construct 1 true, .start 0 7, .start 1 8,
    .wait [some ⟨0, ⟨true, false, false, false, false⟩, 0⟩,
      some ⟨1, ⟨true, false, false, false, false⟩, 1⟩],
    .next, .destroy 1, .handlerReturns false, .next]

/-- **The loop goes on to the object that was destroyed.** -/
theorem destroyedInBatchRun_not_sound :
    Along (next step) Legal start destroyedInBatchRun ∧
      ¬ Along (next step) (fun s event => ∀ effect ∈ (s.step event).2, s.Sound effect) start
        destroyedInBatchRun := by
  decide

end EpollLoop

end TradingEngine
