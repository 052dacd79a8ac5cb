import Mathlib.Data.List.Basic

/-!
# Machinery/Run — runs of a step function, and what holds along them

A run is a list of events folded through `step : σ → ε → σ`.  `Along P` says that every step of the
run satisfies `P` *at the state it is taken in*, so one combinator states the legality of a run, the
condition its steps meet and the property they have.

* `exec_of_invariant` — an invariant the legal steps keep holds at the end of every legal run.
* `along_iff_of_invariant` — where an invariant makes `P` and `Q` agree on single steps, a run has
  `P` along it exactly when it has `Q` along it.
* `along_trace` — a property of the outputs of a run, judged one after the other by a monitor, is a
  property of the steps of the machine and the monitor side by side.
* `trace_congr` — two states that every step keeps alike give out the same.
-/

namespace Run

variable {σ ε : Type*} (step : σ → ε → σ)

/-- The state a run ends in. -/
def exec (s : σ) (es : List ε) : σ := es.foldl step s

@[simp] theorem exec_nil (s : σ) : exec step s [] = s := rfl

@[simp] theorem exec_cons (s : σ) (e : ε) (es : List ε) :
    exec step s (e :: es) = exec step (step s e) es := rfl

theorem exec_append (s : σ) (es fs : List ε) :
    exec step s (es ++ fs) = exec step (exec step s es) fs := List.foldl_append

/-- Every step of the run satisfies `P` at the state it is taken in. -/
def Along (P : σ → ε → Prop) : σ → List ε → Prop
  | _, [] => True
  | s, e :: es => P s e ∧ Along P (step s e) es

variable {step} {P Q : σ → ε → Prop} {I : σ → Prop}

@[simp] theorem along_nil (s : σ) : Along step P s [] := trivial

@[simp] theorem along_cons (s : σ) (e : ε) (es : List ε) :
    Along step P s (e :: es) ↔ P s e ∧ Along step P (step s e) es := Iff.rfl

theorem along_of_forall (h : ∀ s e, P s e) (s : σ) (es : List ε) : Along step P s es := by
  induction es generalizing s with
  | nil => exact trivial
  | cons e es ih => exact ⟨h s e, ih _⟩

/-- What every event of a run has holds along it. -/
theorem along_of_mem {P : ε → Prop} {s : σ} {es : List ε} (h : ∀ e ∈ es, P e) :
    Along step (fun _ e => P e) s es := by
  induction es generalizing s with
  | nil => exact trivial
  | cons e es ih =>
    obtain ⟨he, hes⟩ := List.forall_mem_cons.mp h
    exact ⟨he, ih hes⟩

theorem along_and {s : σ} {es : List ε} :
    Along step (fun s e => P s e ∧ Q s e) s es ↔ Along step P s es ∧ Along step Q s es := by
  induction es generalizing s with
  | nil => simp
  | cons e es ih =>
    simp only [along_cons, ih]
    exact and_and_and_comm

/-- `Along` is decided by running. -/
instance decidableAlong [∀ s e, Decidable (P s e)] :
    ∀ (s : σ) (es : List ε), Decidable (Along step P s es)
  | _, [] => .isTrue trivial
  | s, e :: es =>
    have := decidableAlong (step s e) es
    inferInstanceAs (Decidable (P s e ∧ Along step P (step s e) es))

theorem along_append (s : σ) (es fs : List ε) :
    Along step P s (es ++ fs) ↔ Along step P s es ∧ Along step P (exec step s es) fs := by
  induction es generalizing s with
  | nil => simp
  | cons e es ih => simp only [List.cons_append, along_cons, exec_cons, ih, and_assoc]

/-- **A property along a run, read at a split of it.** -/
theorem along_split {s : σ} {pre post : List ε} {e : ε}
    (h : Along step P s (pre ++ e :: post)) : P (exec step s pre) e :=
  ((along_append s pre (e :: post)).mp h).2.1

/-- **The invariant rule.**  What every legal step keeps holds at the end of a legal run. -/
theorem exec_of_invariant (hstep : ∀ s e, I s → P s e → I (step s e)) {s : σ} (hs : I s) :
    ∀ {es : List ε}, Along step P s es → I (exec step s es) := by
  intro es
  induction es generalizing s with
  | nil => exact fun _ => hs
  | cons e es ih => exact fun h => ih (hstep s e hs h.1) h.2

/-- **The same, with no condition on the steps.** -/
theorem exec_of_forall (hstep : ∀ s e, I s → I (step s e)) {s : σ} (hs : I s) (es : List ε) :
    I (exec step s es) := by
  induction es generalizing s with
  | nil => exact hs
  | cons e es ih => exact ih (hstep s e hs)

/-- **A property of single steps, carried along a run by an invariant.** -/
theorem along_of_invariant (hstep : ∀ s e, I s → P s e → I (step s e))
    (hPQ : ∀ s e, I s → P s e → Q s e) {s : σ} (hs : I s) :
    ∀ {es : List ε}, Along step P s es → Along step Q s es := by
  intro es
  induction es generalizing s with
  | nil => exact fun _ => trivial
  | cons e es ih => exact fun h => ⟨hPQ s e hs h.1, ih (hstep s e hs h.1) h.2⟩

/-- **Exactness along a run.**  If, under an invariant that the `Q`-steps keep, a legal step has `P`
exactly when it has `Q`, then a legal run has `P` along it exactly when it has `Q` along it. -/
theorem along_iff_of_invariant {L : σ → ε → Prop}
    (hstep : ∀ s e, I s → L s e → Q s e → I (step s e))
    (hPQ : ∀ s e, I s → L s e → (P s e ↔ Q s e)) {s : σ} (hs : I s) :
    ∀ {es : List ε}, Along step L s es → (Along step P s es ↔ Along step Q s es) := by
  intro es
  induction es generalizing s with
  | nil => exact fun _ => Iff.rfl
  | cons e es ih =>
    rintro ⟨hL, hLs⟩
    simp only [along_cons, hPQ s e hs hL]
    exact and_congr_right fun hQ => ih (hstep s e hs hL hQ) hLs

/-! ## Outputs and monitors

A machine with outputs is a step `σ → ε → σ × List ο`.  A *monitor* reads the outputs one by one;
what it remembers is the history a property of the outputs speaks about. -/

section Output

variable {ο μ : Type*} (out : σ → ε → σ × List ο) (see : μ → ο → μ)

/-- The state a step leads to. -/
def next (s : σ) (e : ε) : σ := (out s e).1

/-- The outputs of a run, in order. -/
def trace : σ → List ε → List ο
  | _, [] => []
  | s, e :: es => (out s e).2 ++ trace (next out s e) es

/-- The machine with the monitor beside it. -/
def watch (p : σ × μ) (e : ε) : σ × μ := (next out p.1 e, exec see p.2 (out p.1 e).2)

variable {out see} {Ok : μ → ο → Prop}

/-- The machine and the monitor run side by side. -/
theorem exec_watch (s : σ) (m : μ) (es : List ε) :
    exec (watch out see) (s, m) es = (exec (next out) s es, exec see m (trace out s es)) := by
  induction es generalizing s m with
  | nil => rfl
  | cons e es ih =>
    rw [exec_cons, exec_cons, trace, exec_append]
    exact ih _ _

/-- **The outputs of a run are good exactly when every step's are**, judged where the monitor stands
at that step. -/
theorem along_trace (s : σ) (m : μ) (es : List ε) :
    Along see Ok m (trace out s es) ↔
      Along (watch out see) (fun p e => Along see Ok p.2 (out p.1 e).2) (s, m) es := by
  induction es generalizing s m with
  | nil => exact Iff.rfl
  | cons e es ih =>
    rw [trace, along_append, along_cons, ih]
    exact Iff.rfl

/-- **The simulation rule.**  What two states have in common, if every step keeps it and gives out
the same, makes their runs give out the same. -/
theorem trace_congr {R : σ → σ → Prop}
    (hstep : ∀ s t e, R s t → (out s e).2 = (out t e).2 ∧ R (next out s e) (next out t e)) {s t : σ}
    (h : R s t) (es : List ε) : trace out s es = trace out t es := by
  induction es generalizing s t with
  | nil => rfl
  | cons e es ih =>
    obtain ⟨hout, hnext⟩ := hstep s t e h
    rw [trace, trace, hout, ih hnext]

/-- What is said of the machine alone does not see the monitor. -/
theorem along_watch (s : σ) (m : μ) (es : List ε) :
    Along (watch out see) (fun p e => P p.1 e) (s, m) es ↔ Along (next out) P s es := by
  induction es generalizing s m with
  | nil => exact Iff.rfl
  | cons e es ih =>
    rw [along_cons, along_cons, watch, ih]

end Output

end Run
