import Mathlib.Algebra.Order.Ring.Nat
import Mathlib.Data.List.Induction
import TradingEngine.Machinery.Run

/-!
# Machinery/CriticalSection — calls whose bodies run under one lock

A call spins until it finds the flag of the lock clear and sets it, goes through its body one step
at a time, and clears the flag when the body is through.  Any number of calls are under way, and
each of them may take the next step.

* `whole_of_run` — the bodies that are through ran whole, one after the other: each of them led
  from the state the one before it left to its own, as if it had been alone.
* `history_of_whole`, `result_iff_of_run` — so an invariant of whole bodies and of their entries so
  far speaks of every call that is through.
* `ahead_of_run` — while a body is under way, the shared state is on the way from one such state to
  another.
* `eq_of_holdsAt_of_run` — two calls are never in their bodies.
* `returns_of_run` — from every state a run leads to, all calls can come to their ends.
-/

namespace CriticalSection

open Run

variable {α ι σ π ρ : Type*}

/-- A body in atomic steps: where a call begins, and what a step makes of the shared state.  A step
may turn on an input from outside; it leads to another point or ends the body with a result. -/
structure Body (α ι σ π ρ : Type*) where
  start : α → π
  step : σ → π → ι → σ × (π ⊕ ρ)

/-- Where a call is. -/
inductive Phase (π ρ : Type*)
  | waiting
  | inside (point : π)
  | leaving (result : ρ)
  | returned (result : ρ)
  deriving DecidableEq

namespace Phase

/-- The call has the lock. -/
def holds : Phase π ρ → Bool
  | inside _ | leaving _ => true
  | waiting | returned _ => false

/-- The result of a body that is through. -/
def result : Phase π ρ → Option ρ
  | leaving r | returned r => some r
  | waiting | inside _ => none

end Phase

/-- A call and its argument. -/
structure Call (α π ρ : Type*) where
  argument : α
  phase : Phase π ρ
  deriving DecidableEq

/-- The state that the lock guards, the flag of the lock, and the calls so far. -/
structure Threads (α σ π ρ : Type*) where
  shared : σ
  flag : Bool
  calls : List (Call α π ρ)
  deriving DecidableEq

/-- A thread makes a call, or the `k`-th call takes a step. -/
inductive Event (α ι : Type*)
  | call (argument : α)
  | step (k : ℕ) (input : ι)

/-- What is left of a body: the call, its result and the state behind it. -/
structure Entry (α σ ρ : Type*) where
  call : ℕ
  argument : α
  result : ρ
  shared : σ

namespace Threads

/-- No call, and the lock is free. -/
def init (shared : σ) : Threads α σ π ρ := ⟨shared, false, []⟩

/-- The `k`-th call becomes `c`. -/
def put (s : Threads α σ π ρ) (k : ℕ) (c : Call α π ρ) : Threads α σ π ρ :=
  { s with calls := s.calls.set k c }

/-- The `k`-th call, with the argument `a`, is in the phase. -/
def At (s : Threads α σ π ρ) (k : ℕ) (a : α) (phase : Phase π ρ) : Prop :=
  s.calls[k]? = some ⟨a, phase⟩

instance [DecidableEq α] [DecidableEq π] [DecidableEq ρ] (s : Threads α σ π ρ) (k : ℕ) (a : α)
    (phase : Phase π ρ) : Decidable (s.At k a phase) := inferInstanceAs (Decidable (_ = _))

variable (body : Body α ι σ π ρ)

/-- One step of a call. -/
def stepCall (s : Threads α σ π ρ) (k : ℕ) (input : ι) (a : α) :
    Phase π ρ → Threads α σ π ρ × List (Entry α σ ρ)
  | .waiting =>
    -- `test_and_set` gives back what the flag was
    if s.flag then (s, []) else ({ s.put k ⟨a, .inside (body.start a)⟩ with flag := true }, [])
  | .inside point =>
    match body.step s.shared point input with
    | (shared, .inl point) => ({ s.put k ⟨a, .inside point⟩ with shared }, [])
    | (shared, .inr r) => ({ s.put k ⟨a, .leaving r⟩ with shared }, [⟨k, a, r, shared⟩])
  | .leaving r => ({ s.put k ⟨a, .returned r⟩ with flag := false }, [])
  | .returned _ => (s, [])

/-- The machine; it gives out an entry whenever a body is through. -/
def step (s : Threads α σ π ρ) : Event α ι → Threads α σ π ρ × List (Entry α σ ρ)
  | .call a => ({ s with calls := s.calls ++ [⟨a, .waiting⟩] }, [])
  | .step k input =>
    match s.calls[k]? with
    | none => (s, [])
    | some c => s.stepCall body k input c.argument c.phase

/-- What a step of the machine may do. -/
inductive Move (s : Threads α σ π ρ) : Threads α σ π ρ → List (Entry α σ ρ) → Prop
  | comes (a : α) : Move s { s with calls := s.calls ++ [⟨a, .waiting⟩] } []
  | stays : Move s s []
  | takes {k : ℕ} {a : α} (hk : s.At k a .waiting) (hfree : s.flag = false) :
    Move s { s.put k ⟨a, .inside (body.start a)⟩ with flag := true } []
  | goesOn {k : ℕ} {a : α} {p p' : π} {i : ι} {shared : σ}
      (hk : s.At k a (.inside p))
      (hstep : body.step s.shared p i = (shared, .inl p')) :
    Move s { s.put k ⟨a, .inside p'⟩ with shared } []
  | ends {k : ℕ} {a : α} {p : π} {r : ρ} {i : ι} {shared : σ}
      (hk : s.At k a (.inside p))
      (hstep : body.step s.shared p i = (shared, .inr r)) :
    Move s { s.put k ⟨a, .leaving r⟩ with shared } [⟨k, a, r, shared⟩]
  | leaves {k : ℕ} {a : α} {r : ρ} (hk : s.At k a (.leaving r)) :
    Move s { s.put k ⟨a, .returned r⟩ with flag := false } []

theorem move_stepCall {s : Threads α σ π ρ} {k : ℕ} {a : α} {phase : Phase π ρ}
    (hk : s.At k a phase) (input : ι) :
    Move body s (s.stepCall body k input a phase).1 (s.stepCall body k input a phase).2 := by
  cases phase with
  | waiting =>
    rw [stepCall]
    split
    · exact .stays
    · exact .takes hk (Bool.not_eq_true _ ▸ ‹¬ s.flag = true›)
  | inside p =>
    rcases hstep : body.step s.shared p input with ⟨shared, p' | r⟩
    · simp only [stepCall, hstep]
      exact .goesOn hk hstep
    · simp only [stepCall, hstep]
      exact .ends hk hstep
  | leaving r => exact .leaves hk
  | returned r => exact .stays

theorem move_step (s : Threads α σ π ρ) (e : Event α ι) :
    Move body s (step body s e).1 (step body s e).2 := by
  cases e with
  | call a => exact .comes a
  | step k input =>
    rcases hk : s.calls[k]? with _ | ⟨a, phase⟩
    · simp only [step, hk]
      exact .stays
    · simp only [step, hk]
      exact move_stepCall body hk input

/-! ## Whole bodies -/

/-- A body led from a state and a point to a state and a result. -/
inductive Runs : σ → π → σ → ρ → Prop
  | ends {s s' : σ} {p : π} {r : ρ} {i : ι} (h : body.step s p i = (s', .inr r)) : Runs s p s' r
  | goesOn {s s' t : σ} {p p' : π} {r : ρ} {i : ι} (h : body.step s p i = (t, .inl p'))
      (hrest : Runs t p' s' r) : Runs s p s' r

/-- The entry is of a body that began at the state. -/
def Whole (m : σ) (e : Entry α σ ρ) : Prop := Runs body m (body.start e.argument) e.shared e.result

/-- The state that the last body left. -/
def see (_ : σ) (e : Entry α σ ρ) : σ := e.shared

/-- The `k`-th call has the lock. -/
def HoldsAt (s : Threads α σ π ρ) (k : ℕ) : Prop := ∃ a phase, s.At k a phase ∧ phase.holds = true

/-- The lock has at most one owner, and what its body has done so far is the beginning of a whole
body from the state that the body before it left. -/
structure Inv (s : Threads α σ π ρ) (m : σ) (owner : Option ℕ) : Prop where
  flag : s.flag = owner.isSome
  owns : ∀ k, s.HoldsAt k ↔ owner = some k
  between : (∀ k a p, ¬ s.At k a (.inside p)) → s.shared = m
  inside : ∀ k a p, s.At k a (.inside p) →
    ∀ s' r, Runs body s.shared p s' r → Runs body m (body.start a) s' r

variable {body} {s t : Threads α σ π ρ} {m shared : σ} {flag : Bool} {owner : Option ℕ} {k j : ℕ}
  {a b : α} {p p' : π} {r : ρ} {i : ι} {phase phase' q : Phase π ρ} {out : List (Entry α σ ρ)}

theorem at_put_self (hk : s.At k a phase) :
    At { s.put k ⟨a, phase'⟩ with shared, flag } k b q ↔ b = a ∧ q = phase' := by
  rw [At, put, List.getElem?_set_self (List.getElem?_eq_some_iff.mp hk).1]
  simp only [Option.some.injEq, Call.mk.injEq, eq_comm]

theorem at_put_of_ne (hne : j ≠ k) :
    At { s.put k ⟨a, phase⟩ with shared, flag } j b q ↔ s.At j b q := by
  rw [At, put, List.getElem?_set_ne hne.symm, At]

/-- A call that is not where it was is the `k`-th. -/
theorem of_at_put (hk : s.At k a phase)
    (hj : At { s.put k ⟨a, phase'⟩ with shared, flag } j b q) :
    s.At j b q ∨ j = k ∧ b = a ∧ q = phase' := by
  by_cases heq : j = k
  · exact .inr ⟨heq, (at_put_self hk).mp (heq ▸ hj)⟩
  · exact .inl ((at_put_of_ne heq).mp hj)

/-- Where no other call has the lock, the `k`-th has it if its phase says so. -/
theorem holdsAt_put (hk : s.At k a phase) (halone : ∀ j, j ≠ k → ¬ s.HoldsAt j) :
    HoldsAt { s.put k ⟨a, phase'⟩ with shared, flag } j ↔ phase'.holds = true ∧ j = k := by
  by_cases hj : j = k
  · subst hj
    simp only [HoldsAt, at_put_self hk, and_true]
    refine ⟨?_, fun h => ⟨a, phase', ⟨rfl, rfl⟩, h⟩⟩
    rintro ⟨b, q, ⟨-, rfl⟩, hholds⟩
    exact hholds
  · simp only [HoldsAt, at_put_of_ne hj, hj, and_false, iff_false]
    exact halone j hj

theorem at_comes (hq : q ≠ .waiting) :
    At { s with calls := s.calls ++ [⟨a, .waiting⟩] } k b q ↔ s.At k b q := by
  by_cases hlt : k < s.calls.length
  · rw [At, List.getElem?_append_left hlt, At]
  · rw [At, At, List.getElem?_append_right (Nat.le_of_not_lt hlt), List.getElem?_singleton,
      List.getElem?_eq_none (Nat.le_of_not_lt hlt)]
    split
    · simp [hq.symm]
    · simp

theorem holds_ne_waiting (h : q.holds = true) : q ≠ .waiting := by
  rintro rfl
  cases h

theorem inv_init (shared : σ) : Inv body (init shared) shared none where
  flag := rfl
  owns k := by simp [HoldsAt, At, init]
  between _ := rfl
  inside k a p h := by simp [At, init] at h

theorem Inv.comes (h : Inv body s m owner) (a : α) :
    Inv body { s with calls := s.calls ++ [⟨a, .waiting⟩] } m owner where
  flag := h.flag
  owns k := by
    rw [← h.owns k]
    refine exists_congr fun b => exists_congr fun q => and_congr_left fun hholds => ?_
    exact at_comes (holds_ne_waiting hholds)
  between hnone := h.between fun k b p => by
    have := hnone k b p
    rwa [at_comes (by simp)] at this
  inside k b p hk := by
    rw [at_comes (by simp)] at hk
    exact h.inside k b p hk

theorem Inv.alone (h : Inv body s m owner) (howner : owner = none ∨ owner = some k) :
    ∀ j, j ≠ k → ¬ s.HoldsAt j := by
  intro j hj hholds
  rw [h.owns] at hholds
  obtain rfl | rfl := howner
  · cases hholds
  · exact hj (Option.some.inj hholds).symm

theorem Inv.owner_eq (h : Inv body s m owner) (hk : s.At k a phase) (hholds : phase.holds = true) :
    owner = some k := (h.owns k).mp ⟨a, phase, hk, hholds⟩

/-- Where no other call has the lock, the only body under way is that of the `k`-th. -/
theorem eq_of_inside (hk : s.At k a phase) (halone : ∀ j, j ≠ k → ¬ s.HoldsAt j)
    (hj : At { s.put k ⟨a, phase'⟩ with shared, flag } j b (.inside p)) :
    j = k ∧ b = a ∧ phase' = .inside p := by
  obtain ⟨-, rfl⟩ := (holdsAt_put hk halone).mp ⟨b, .inside p, hj, rfl⟩
  obtain ⟨rfl, hphase⟩ := (at_put_self hk).mp hj
  exact ⟨rfl, rfl, hphase.symm⟩

/-- The owner's body stands at the point. -/
theorem Inv.put_inside (h : Inv body s m owner) (hk : s.At k a phase)
    (howner : owner = none ∨ owner = some k) (hflag : flag = true)
    (hruns : ∀ s' r, Runs body shared p s' r → Runs body m (body.start a) s' r) :
    Inv body { s.put k ⟨a, .inside p⟩ with shared, flag } m (some k) where
  flag := hflag
  owns j := by simp [holdsAt_put hk (h.alone howner), Phase.holds, eq_comm]
  between hnone := absurd ((at_put_self hk).mpr ⟨rfl, rfl⟩) (hnone k a p)
  inside j b p' hj := by
    obtain ⟨-, rfl, hphase⟩ := eq_of_inside hk (h.alone howner) hj
    cases hphase
    exact hruns

/-- The owner's body is through, and the owner may have given the lock back. -/
theorem Inv.put_outside (h : Inv body s m (some k)) (hk : s.At k a phase)
    (hphase : ∀ p, phase' ≠ .inside p) (hflag : flag = phase'.holds) :
    Inv body { s.put k ⟨a, phase'⟩ with shared, flag } shared
      (if phase'.holds then some k else none) where
  flag := by rw [hflag]; cases phase'.holds <;> rfl
  owns j := by
    rw [holdsAt_put hk (h.alone (.inr rfl))]
    cases phase'.holds <;> simp [eq_comm]
  between _ := rfl
  inside j b p' hj := absurd (eq_of_inside hk (h.alone (.inr rfl)) hj).2.2 (hphase p')

/-- **One step.**  A body that is through ran whole, and the lock goes from call to call. -/
theorem Inv.move (h : Inv body s m owner) (hmove : Move body s t out) :
    Along see (Whole body) m out ∧ ∃ owner', Inv body t (exec see m out) owner' := by
  cases hmove with
  | comes a => exact ⟨trivial, owner, h.comes a⟩
  | stays => exact ⟨trivial, owner, h⟩
  | @takes k a hk hfree =>
    have howner : owner = none := by simpa [hfree] using h.flag
    have hm : s.shared = m := h.between fun j b p hj => by
      cases howner ▸ h.owner_eq hj rfl
    exact ⟨trivial, some k, h.put_inside hk (.inl howner) rfl fun s' r hruns => hm ▸ hruns⟩
  | @goesOn k a p p' i shared hk hstep =>
    obtain rfl := h.owner_eq hk rfl
    exact ⟨trivial, some k, h.put_inside hk (.inr rfl) h.flag fun s' r hruns =>
      h.inside k a p hk s' r (.goesOn hstep hruns)⟩
  | @ends k a p r i shared hk hstep =>
    obtain rfl := h.owner_eq hk rfl
    exact ⟨⟨h.inside k a p hk shared r (.ends hstep), trivial⟩, some k,
      h.put_outside hk (by simp) h.flag⟩
  | @leaves k a r hk =>
    obtain rfl := h.owner_eq hk rfl
    have hm : s.shared = m := h.between fun j b p hj => by
      obtain rfl : k = j := Option.some.inj (h.owner_eq hj rfl)
      cases hk.symm.trans hj
    subst hm
    exact ⟨trivial, none, h.put_outside hk (by simp) rfl⟩

/-- The machine and the state that the last body left, along a run. -/
theorem exists_inv (shared : σ) (es : List (Event α ι)) :
    ∃ owner, Inv body (exec (next (step body)) (init shared) es)
      (exec see shared (trace (step body) (init shared) es)) owner := by
  have hstep : ∀ (p : Threads α σ π ρ × σ) e, (∃ owner, Inv body p.1 p.2 owner) →
      ∃ owner, Inv body (watch (step body) see p e).1 (watch (step body) see p e).2 owner := by
    rintro p e ⟨owner, h⟩
    exact (h.move (move_step body p.1 e)).2
  have h := exec_of_forall hstep (s := (init shared, shared)) ⟨none, inv_init shared⟩ es
  rwa [exec_watch] at h

/-- **The bodies ran whole, one after the other.** -/
theorem whole_of_run (shared : σ) (es : List (Event α ι)) :
    Along see (Whole body) shared (trace (step body) (init shared) es) := by
  rw [along_trace]
  refine along_of_invariant (P := fun _ _ => True)
    (I := fun p => ∃ owner, Inv body p.1 p.2 owner) ?_ ?_ ⟨none, inv_init shared⟩
    (along_of_forall (fun _ _ => trivial) _ es)
  · rintro p e ⟨owner, h⟩ -
    exact (h.move (move_step body p.1 e)).2
  · rintro p e ⟨owner, h⟩ -
    exact (h.move (move_step body p.1 e)).1

/-- **Two calls are never in their bodies.** -/
theorem eq_of_holdsAt_of_run (shared : σ) (es : List (Event α ι))
    (hj : HoldsAt (exec (next (step body)) (init shared) es) j)
    (hk : HoldsAt (exec (next (step body)) (init shared) es) k) : j = k := by
  obtain ⟨owner, h⟩ : ∃ owner, Inv body _ _ owner := exists_inv shared es
  exact Option.some.inj (((h.owns j).mp hj).symm.trans ((h.owns k).mp hk))

/-- While the lock is free the shared state is the one that the last body left. -/
theorem Inv.shared_eq (h : Inv body s m owner) (hfree : s.flag = false) : s.shared = m := by
  refine h.between fun k a p hk => ?_
  have hheld := h.flag
  rw [hfree, h.owner_eq hk rfl] at hheld
  cases hheld

theorem shared_of_run (shared : σ) (es : List (Event α ι))
    (hfree : (exec (next (step body)) (init shared) es).flag = false) :
    (exec (next (step body)) (init shared) es).shared =
      exec see shared (trace (step body) (init shared) es) := by
  obtain ⟨owner, h⟩ : ∃ owner, Inv body _ _ owner := exists_inv shared es
  exact h.shared_eq hfree

/-! ## The history of a run -/

/-- What every whole body keeps, said of the state it left and of the entries so far. -/
theorem history_of_whole {I : σ → List (Entry α σ ρ) → Prop} {out : List (Entry α σ ρ)}
    (hinit : I m []) (hkeep : ∀ m past e, I m past → Whole body m e → I e.shared (past ++ [e]))
    (h : Along see (Whole body) m out) : I (exec see m out) out := by
  induction out using List.reverseRecOn with
  | nil => exact hinit
  | append_singleton out e ih =>
    obtain ⟨hout, hwhole, -⟩ := (along_append m out [e]).mp h
    rw [exec_append]
    exact hkeep _ out e (ih hout) hwhole

/-- A call whose body is through had its result before the step, or the step gives it out. -/
theorem Move.result (hmove : Move body s t out) (hj : t.At j b q) (hq : q.result = some r) :
    (∃ q', s.At j b q' ∧ q'.result = some r) ∨
      ∃ e ∈ out, e.call = j ∧ e.argument = b ∧ e.result = r := by
  cases hmove with
  | comes a =>
    refine .inl ⟨q, (at_comes ?_).mp hj, hq⟩
    rintro rfl
    cases hq
  | stays => exact .inl ⟨q, hj, hq⟩
  | takes hk hfree =>
    obtain hj | ⟨-, -, rfl⟩ := of_at_put hk hj
    · exact .inl ⟨q, hj, hq⟩
    · cases hq
  | goesOn hk hstep =>
    obtain hj | ⟨-, -, rfl⟩ := of_at_put hk hj
    · exact .inl ⟨q, hj, hq⟩
    · cases hq
  | ends hk hstep =>
    obtain hj | ⟨rfl, rfl, rfl⟩ := of_at_put hk hj
    · exact .inl ⟨q, hj, hq⟩
    · exact .inr ⟨_, List.mem_singleton_self _, rfl, rfl, Option.some.inj hq⟩
  | @leaves k a r' hk =>
    obtain hj | ⟨rfl, rfl, rfl⟩ := of_at_put hk hj
    · exact .inl ⟨q, hj, hq⟩
    · exact .inl ⟨.leaving r', hk, hq⟩

/-- The result of a call stays. -/
theorem Move.result_stays (hmove : Move body s t out) (hj : s.At j b q) (hq : q.result = some r) :
    ∃ q', t.At j b q' ∧ q'.result = some r := by
  have hput {k a phase phase'} {shared : σ} {flag : Bool} (hk : s.At k a phase)
      (hphase : phase.result = some r → phase'.result = some r) :
      ∃ q', At { s.put k ⟨a, phase'⟩ with shared, flag } j b q' ∧ q'.result = some r := by
    by_cases hjk : j = k
    · subst hjk
      obtain ⟨rfl, rfl⟩ := Call.mk.inj (Option.some.inj (hj.symm.trans hk))
      exact ⟨phase', (at_put_self hk).mpr ⟨rfl, rfl⟩, hphase hq⟩
    · exact ⟨q, (at_put_of_ne hjk).mpr hj, hq⟩
  cases hmove with
  | comes a =>
    refine ⟨q, (at_comes ?_).mpr hj, hq⟩
    rintro rfl
    cases hq
  | stays => exact ⟨q, hj, hq⟩
  | takes hk hfree => exact hput hk (by simp [Phase.result])
  | goesOn hk hstep => exact hput hk (by simp [Phase.result])
  | ends hk hstep => exact hput hk (by simp [Phase.result])
  | leaves hk => exact hput hk (by simp [Phase.result])

/-- A body that is through has the result that was given out. -/
theorem Move.result_of_mem (hmove : Move body s t out) {e : Entry α σ ρ} (he : e ∈ out) :
    ∃ q, t.At e.call e.argument q ∧ q.result = some e.result := by
  cases hmove with
  | comes | stays | takes | goesOn | leaves => cases he
  | @ends k a p r i shared hk hstep =>
    rw [List.mem_singleton.mp he]
    exact ⟨.leaving r, (at_put_self hk).mpr ⟨rfl, rfl⟩, rfl⟩

/-- **The calls that are through are the entries of the run.** -/
theorem result_iff_of_run (shared : σ) (es : List (Event α ι)) :
    (∃ q, At (exec (next (step body)) (init shared) es) j b q ∧ q.result = some r) ↔
      ∃ e ∈ trace (step body) (init shared) es, e.call = j ∧ e.argument = b ∧ e.result = r := by
  have hgen (s : Threads α σ π ρ) :
      (∃ q, At (exec (next (step body)) s es) j b q ∧ q.result = some r) ↔
        (∃ q, s.At j b q ∧ q.result = some r) ∨
          ∃ e ∈ trace (step body) s es, e.call = j ∧ e.argument = b ∧ e.result = r := by
    induction es generalizing s with
    | nil => simp [trace]
    | cons e es ih =>
      have hmove := move_step body s e
      rw [exec_cons, ih, trace, next]
      simp only [List.mem_append, or_and_right, exists_or, ← or_assoc]
      refine or_congr_left ⟨?_, ?_⟩
      · rintro ⟨q, hj, hq⟩
        exact hmove.result hj hq
      · rintro (⟨q, hj, hq⟩ | ⟨e', he', rfl, rfl, rfl⟩)
        · exact hmove.result_stays hj hq
        · exact hmove.result_of_mem he'
  rw [hgen]
  refine or_iff_right ?_
  rintro ⟨q, hj, -⟩
  simp [At, init] at hj

/-! ## Every call can come to its end -/

section Progress

/-- The steps that a call still has to take, if the point `p` is at most `rank p` steps before the
end of the body. -/
def Call.remaining (start : α → π) (rank : π → ℕ) (c : Call α π ρ) : ℕ :=
  match c.phase with
  | .waiting => rank (start c.argument) + 3
  | .inside p => rank p + 2
  | .leaving _ => 1
  | .returned _ => 0

theorem sum_set_lt {l : List ℕ} {k m n : ℕ} (hk : l[k]? = some n) (hlt : m < n) :
    (l.set k m).sum < l.sum := by
  induction l generalizing k with
  | nil => cases hk
  | cons x l ih =>
    cases k with
    | zero =>
      obtain rfl : x = n := Option.some.inj hk
      simp only [List.set_cons_zero, List.sum_cons]
      omega
    | succ k =>
      have := ih hk
      simp only [List.set_cons_succ, List.sum_cons]
      omega

variable {rank : π → ℕ}

/-- The steps that all calls still have to take. -/
def remaining (body : Body α ι σ π ρ) (rank : π → ℕ) (s : Threads α σ π ρ) : ℕ :=
  (s.calls.map (Call.remaining body.start rank)).sum

theorem remaining_put_lt (hk : s.At k a phase)
    (hlt : Call.remaining body.start rank ⟨a, phase'⟩ < Call.remaining body.start rank ⟨a, phase⟩) :
    remaining body rank { s.put k ⟨a, phase'⟩ with shared, flag } < remaining body rank s := by
  have hget : (s.calls.map (Call.remaining body.start rank))[k]? =
      some (Call.remaining body.start rank ⟨a, phase⟩) := by
    rw [List.getElem?_map, hk, Option.map_some]
  rw [remaining, put, List.map_set]
  exact sum_set_lt hget hlt

/-- The call whose turn it is comes nearer to its end. -/
theorem remaining_stepCall_lt (hrank : ∀ s p i s' p', body.step s p i = (s', .inl p') →
      rank p' < rank p) (hk : s.At k a phase) (hturn : s.flag = false ∨ phase.holds = true)
    (hnot : ∀ r, phase ≠ .returned r) (input : ι) :
    remaining body rank (s.stepCall body k input a phase).1 < remaining body rank s := by
  cases phase with
  | waiting =>
    have hfree : s.flag = false := hturn.resolve_right (by simp [Phase.holds])
    rw [stepCall, if_neg (by simp [hfree])]
    exact remaining_put_lt hk (by simp [Call.remaining])
  | inside p =>
    rcases hstep : body.step s.shared p input with ⟨shared, p' | r⟩
    · simp only [stepCall, hstep]
      refine remaining_put_lt hk ?_
      have := hrank _ _ _ _ _ hstep
      simpa [Call.remaining] using this
    · simp only [stepCall, hstep]
      exact remaining_put_lt hk (by simp [Call.remaining])
  | leaving r => exact remaining_put_lt hk (by simp [Call.remaining])
  | returned r => exact absurd rfl (hnot r)

/-- There is a call whose turn it is, unless all have returned. -/
theorem Inv.exists_turn (h : Inv body s m owner) (hk : s.At k a phase)
    (hnot : ∀ r, phase ≠ .returned r) :
    ∃ k a phase, s.At k a phase ∧ (s.flag = false ∨ phase.holds = true) ∧
      ∀ r, phase ≠ .returned r := by
  cases hflag : s.flag with
  | false => exact ⟨k, a, phase, hk, .inl rfl, hnot⟩
  | true =>
    obtain ⟨j, rfl⟩ := Option.isSome_iff_exists.mp (h.flag.symm.trans hflag)
    obtain ⟨b, q, hj, hholds⟩ := (h.owns j).mpr rfl
    refine ⟨j, b, q, hj, .inr hholds, ?_⟩
    rintro r rfl
    cases hholds

/-- Steps of the calls whose turn it is bring all calls to their ends. -/
theorem Inv.exists_returns (hrank : ∀ s p i s' p', body.step s p i = (s', .inl p') →
      rank p' < rank p) (input : ι) {n : ℕ} (h : Inv body s m owner)
    (hn : remaining body rank s ≤ n) :
    ∃ ks : List ℕ, ∀ k a phase,
      At (exec (next (step body)) s (ks.map (.step · input))) k a phase →
        ∃ r, phase = .returned r := by
  induction n using Nat.strongRecOn generalizing s m owner with
  | ind n ih =>
    by_cases hdone : ∀ k a phase, s.At k a phase → ∃ r, phase = .returned r
    · exact ⟨[], hdone⟩
    · push Not at hdone
      obtain ⟨k, a, phase, hk, hnot⟩ := hdone
      obtain ⟨j, b, q, hj, hturn, hnot⟩ := h.exists_turn hk hnot
      have hstep : next (step body) s (.step j input) = (s.stepCall body j input b q).1 := by
        rw [next, step, hj]
      have hlt := remaining_stepCall_lt hrank hj hturn hnot input
      rw [← hstep] at hlt
      obtain ⟨-, owner', h'⟩ := h.move (move_step body s (.step j input))
      obtain ⟨ks, hks⟩ := ih _ (Nat.lt_of_lt_of_le hlt hn) h' (Nat.le_refl _)
      exact ⟨j :: ks, hks⟩

/-- A body comes to its end. -/
theorem exists_runs (hrank : ∀ s p i s' p', body.step s p i = (s', .inl p') → rank p' < rank p)
    (input : ι) {n : ℕ} (s : σ) (p : π) (hn : rank p ≤ n) : ∃ s' r, Runs body s p s' r := by
  induction n using Nat.strongRecOn generalizing s p with
  | ind n ih =>
    rcases hstep : body.step s p input with ⟨t, p' | r⟩
    · have hlt := Nat.lt_of_lt_of_le (hrank _ _ _ _ _ hstep) hn
      obtain ⟨s', r, hrest⟩ := ih _ hlt t p' (Nat.le_refl _)
      exact ⟨s', r, .goesOn hstep hrest⟩
    · exact ⟨t, r, .ends hstep⟩

/-- **The shared state is the one that the last body left, or a body from there is under way.** -/
theorem ahead_of_run (hrank : ∀ s p i s' p', body.step s p i = (s', .inl p') → rank p' < rank p)
    (input : ι) (shared : σ) (es : List (Event α ι)) :
    let s := exec (next (step body)) (init shared) es
    let m := exec see shared (trace (step body) (init shared) es)
    s.shared = m ∨
      ∃ e p, Whole body m e ∧ Runs body s.shared p e.shared e.result := by
  intro s m
  obtain ⟨owner, h⟩ : ∃ owner, Inv body _ _ owner := exists_inv shared es
  by_cases hinside : ∃ k a p, s.At k a (.inside p)
  · obtain ⟨k, a, p, hk⟩ := hinside
    obtain ⟨s', r, hruns⟩ := exists_runs hrank input s.shared p (Nat.le_refl _)
    exact .inr ⟨⟨k, a, r, s'⟩, p, h.inside k a p hk s' r hruns, hruns⟩
  · exact .inl (h.between fun k a p hk => hinside ⟨k, a, p, hk⟩)

/-- Where all calls have returned, the lock is free. -/
theorem Inv.free_of_returned (h : Inv body s m owner)
    (hreturned : ∀ k a phase, s.At k a phase → ∃ r, phase = .returned r) : s.flag = false := by
  cases howner : owner with
  | none => exact h.flag.trans (by rw [howner]; rfl)
  | some k =>
    obtain ⟨a, phase, hk, hholds⟩ := (h.owns k).mpr howner
    obtain ⟨r, rfl⟩ := hreturned k a phase hk
    cases hholds

/-- **No call is stuck**, if every body comes to an end, and the lock is free then. -/
theorem returns_of_run (hrank : ∀ s p i s' p', body.step s p i = (s', .inl p') → rank p' < rank p)
    (input : ι) (shared : σ) (es : List (Event α ι)) :
    ∃ ks : List ℕ,
      let s := exec (next (step body)) (init shared) (es ++ ks.map (.step · input))
      s.flag = false ∧ ∀ k a phase, s.At k a phase → ∃ r, phase = .returned r := by
  obtain ⟨owner, h⟩ : ∃ owner, Inv body _ _ owner := exists_inv shared es
  obtain ⟨ks, hks⟩ := h.exists_returns hrank input (Nat.le_refl _)
  rw [← exec_append] at hks
  obtain ⟨owner', h'⟩ : ∃ owner, Inv body _ _ owner :=
    exists_inv shared (es ++ ks.map (.step · input))
  exact ⟨ks, h'.free_of_returned hks, hks⟩

end Progress

end Threads

end CriticalSection
