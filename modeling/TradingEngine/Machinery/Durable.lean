import TradingEngine.Machinery.Run

/-!
# Machinery/Durable — a process beside a store, started again and again

A *process* serves requests from its memory and writes to a store; a request may end it, and it is
started again from what is in the store.  A *specification* serves the same requests from one state
that it never loses.

If memory and store stand for a state of the specification and every request keeps this
(`Implements`), a run with restarts at any place gives the answers of the specification
(`trace_eq`), and its restarts cannot be told from the answers (`trace_requests`).
-/

namespace Durable

/-- What happens to a process. -/
inductive Event (ε : Type*)
  | request (e : ε)
  | restart

/-- A request of this kind, or a restart. -/
def Event.Satisfies {ε : Type*} (P : ε → Prop) : Event ε → Prop
  | .request e => P e
  | .restart => True

/-- How a process starts from its store, and what a request does to its memory and its store: it is
answered, or it ends the process. -/
structure Process (σ μ ε ο : Type*) where
  start : σ → Option μ
  serve : μ → σ → ε → Option (μ × ο) × σ

/-- A specification: an answer, or none if the request ends the process. -/
structure Spec (α ε ο : Type*) where
  serve : α → ε → Option ο × α

variable {σ μ α ε ο : Type*}

/-- A process that runs or does not, beside its store. -/
structure Plant (σ μ : Type*) where
  memory : Option μ
  store : σ

/-- A specification of a process that runs or does not. -/
structure Model (α : Type*) where
  up : Bool
  state : α

namespace Process

variable (p : Process σ μ ε ο)

/-- A process that does not run answers nothing. -/
def step (w : Plant σ μ) : Event ε → Plant σ μ × List (Option ο)
  | .restart => ({ w with memory := p.start w.store }, [])
  | .request e =>
    match w.memory with
    | none => (w, [])
    | some m =>
      let served := p.serve m w.store e
      (⟨served.1.map (·.1), served.2⟩, [served.1.map (·.2)])

end Process

namespace Spec

variable (spec : Spec α ε ο)

/-- A restart only brings the process up. -/
def step (w : Model α) : Event ε → Model α × List (Option ο)
  | .restart => ({ w with up := true }, [])
  | .request e =>
    if w.up then (⟨(spec.serve w.state e).1.isSome, (spec.serve w.state e).2⟩,
      [(spec.serve w.state e).1])
    else (w, [])

/-- The request may come at this state. -/
def Legally (Legal : α → ε → Prop) (w : Model α) : Event ε → Prop
  | .restart => True
  | .request e => Legal w.state e

end Spec

/-- **The process implements the specification** on the legal requests: every request has the same
answer and keeps what memory and store stand for, and what the store keeps is what a start finds. -/
structure Implements (p : Process σ μ ε ο) (spec : Spec α ε ο) (Legal : α → ε → Prop)
    (Stands : μ → α → Prop) (Keeps : σ → α → Prop) : Prop where
  starts : ∀ {s a}, Keeps s a → ∃ m, p.start s = some m ∧ Stands m a
  serves : ∀ {m s a e}, Stands m a → Keeps s a → Legal a e →
    (p.serve m s e).1.map (·.2) = (spec.serve a e).1 ∧
      (∀ answer ∈ (p.serve m s e).1, Stands answer.1 (spec.serve a e).2) ∧
      Keeps (p.serve m s e).2 (spec.serve a e).2

variable {p : Process σ μ ε ο} {spec : Spec α ε ο} {Legal : α → ε → Prop} {Stands : μ → α → Prop}
  {Keeps : σ → α → Prop} {w : Plant σ μ} {v : Model α} {es : List (Event ε)}

/-- The plant and the model of it agree. -/
structure Agrees (Stands : μ → α → Prop) (Keeps : σ → α → Prop) (w : Plant σ μ) (v : Model α) :
    Prop where
  up : v.up = w.memory.isSome
  stands : ∀ m ∈ w.memory, Stands m v.state
  keeps : Keeps w.store v.state

theorem Spec.along_of_forall {P : ε → Prop} (h : ∀ e ∈ es, e.Satisfies P) (v : Model α) :
    Run.Along (Run.next spec.step) (Spec.Legally fun _ e => P e) v es := by
  induction es generalizing v with
  | nil => exact trivial
  | cons e es ih =>
    obtain ⟨he, hes⟩ := List.forall_mem_cons.mp h
    refine ⟨?_, ih hes _⟩
    cases e with
    | restart => exact trivial
    | request e => exact he

namespace Implements

/-- **The step lemma**: the same answer, and they agree again. -/
theorem step (h : Implements p spec Legal Stands Keeps) (hw : Agrees Stands Keeps w v)
    {e : Event ε} (hlegal : Spec.Legally Legal v e) :
    (p.step w e).2 = (spec.step v e).2 ∧ Agrees Stands Keeps (p.step w e).1 (spec.step v e).1 := by
  obtain ⟨memory, store⟩ := w
  obtain ⟨up, state⟩ := v
  obtain ⟨hup, hstands, hkeeps⟩ := hw
  dsimp only at hup hstands hkeeps
  cases e with
  | restart =>
    obtain ⟨m, hstart, hm⟩ := h.starts hkeeps
    refine ⟨rfl, (congrArg Option.isSome hstart).symm, fun m' hm' => ?_, hkeeps⟩
    obtain rfl := Option.some.inj (hstart.symm.trans hm')
    exact hm
  | request e =>
    cases memory with
    | none =>
      subst hup
      exact ⟨rfl, rfl, hstands, hkeeps⟩
    | some m =>
      subst hup
      obtain ⟨hanswer, hserved, hkeeps'⟩ := h.serves (hstands m rfl) hkeeps hlegal
      refine ⟨congrArg ([·]) hanswer, ?_, fun m' hm' => ?_, hkeeps'⟩
      · change (spec.serve state e).1.isSome = ((p.serve m store e).1.map (·.1)).isSome
        rw [← hanswer, Option.isSome_map, Option.isSome_map]
      · obtain ⟨answer, hin, rfl⟩ := Option.map_eq_some_iff.mp hm'
        exact hserved answer hin

/-- **The run lemma**: they agree at the end of a run. -/
theorem agrees_of_run (h : Implements p spec Legal Stands Keeps) (hw : Agrees Stands Keeps w v)
    (hes : Run.Along (Run.next spec.step) (Spec.Legally Legal) v es) :
    Agrees Stands Keeps (Run.exec (Run.next p.step) w es) (Run.exec (Run.next spec.step) v es) := by
  induction es generalizing w v with
  | nil => exact hw
  | cons e es ih => exact ih (h.step hw hes.1).2 hes.2

/-- **A run gives the answers of the specification**, wherever it is started again. -/
theorem trace_eq (h : Implements p spec Legal Stands Keeps) (hw : Agrees Stands Keeps w v)
    (hes : Run.Along (Run.next spec.step) (Spec.Legally Legal) v es) :
    Run.trace p.step w es = Run.trace spec.step v es := by
  induction es generalizing w v with
  | nil => rfl
  | cons e es ih =>
    obtain ⟨hanswer, hnext⟩ := h.step hw hes.1
    rw [Run.trace, Run.trace, hanswer]
    exact congrArg (_ ++ ·) (ih hnext hes.2)

end Implements

/-! ## Restarts that cannot be told -/

/-- The requests of a run. -/
def requests (es : List (Event ε)) : List ε :=
  es.filterMap fun e => match e with
    | .request e => some e
    | .restart => none

namespace Spec

/-- The answers to some requests, with no restart among them. -/
def answers (spec : Spec α ε ο) : α → List ε → List (Option ο)
  | _, [] => []
  | a, e :: es => (spec.serve a e).1 :: answers spec (spec.serve a e).2 es

/-- The request is answered. -/
def Answered (spec : Spec α ε ο) (a : α) (e : ε) : Prop := (spec.serve a e).1.isSome = true

/-- **Restarts cannot be told from the answers**, if every request is answered. -/
theorem trace_requests (hup : v.up = true)
    (hes : Run.Along (Run.next spec.step) (Legally spec.Answered) v es) :
    Run.trace spec.step v es = spec.answers v.state (requests es) := by
  induction es generalizing v with
  | nil => rfl
  | cons e es ih =>
    cases e with
    | restart => exact ih rfl hes.2
    | request e =>
      have hstep : spec.step v (.request e) =
          (⟨(spec.serve v.state e).1.isSome, (spec.serve v.state e).2⟩,
            [(spec.serve v.state e).1]) := by rw [step, if_pos hup]
      have hnext : Run.next spec.step v (.request e) =
          ⟨(spec.serve v.state e).1.isSome, (spec.serve v.state e).2⟩ := congrArg Prod.fst hstep
      rw [Run.trace, hstep, hnext]
      have hrest := hes.2
      rw [hnext] at hrest
      exact congrArg (_ :: ·) (ih hes.1 hrest)

end Spec

end Durable
