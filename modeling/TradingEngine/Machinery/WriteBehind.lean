import TradingEngine.Machinery.Run

/-!
# Machinery/WriteBehind — a process that answers before it saves

A *process* answers requests from its memory and posts the writes that bring its store up to date;
they run later, one by one and in order.  A restart loses the memory and the writes that have not
run, and the process starts from what it finds in the store.

The *specification* has no store.  It keeps a log: the state of the last start, the requests since
then, and how many of their writes have run.  A restart finds the state behind the last request
whose writes have all run, or what `cut` says if it falls between two writes of one request.

* `Implements.agrees_of_run`, `Implements.trace_eq` — a run with writes and restarts at any place
  stands for the log of it, and gives the answers of the specification.
* `Implements.starts_of_run`, `Spec.found_of_writes` — what the next start finds.
-/

namespace WriteBehind

/-- What happens to a process. -/
inductive Event (ε : Type*)
  | request (e : ε)
  | write
  | restart

/-- How a process starts from its store, what a request does to its memory and what it posts, and
what a write does to the store; a write without a result ends the process. -/
structure Process (σ μ ω ε ο : Type*) where
  start : σ → Option (μ × σ)
  serve : μ → ε → μ × ο × List ω
  write : σ → ω → Option σ

/-- A specification: the answers, the number of writes of a request, and what is found behind some
of them, but not all. -/
structure Spec (α ε ο : Type*) where
  serve : α → ε → α × ο
  writes : α → ε → ℕ
  cut : α → ε → ℕ → Option α

variable {σ μ ω α ε ο : Type*}

/-- A process that runs or does not, the writes it has posted, and its store. -/
structure Plant (σ μ ω : Type*) where
  memory : Option μ
  queue : List ω
  store : σ

/-- The state of the last start, the requests since then, and how many of their writes have run. -/
structure Log (α ε : Type*) where
  base : α
  requests : List ε
  written : ℕ

namespace Process

variable (p : Process σ μ ω ε ο)

/-- A process that does not run answers nothing. -/
def step (w : Plant σ μ ω) : Event ε → Plant σ μ ω × List ο
  | .request e =>
    match w.memory with
    | none => (w, [])
    | some m =>
      let served := p.serve m e
      ({ w with memory := some served.1, queue := w.queue ++ served.2.2 }, [served.2.1])
  | .write =>
    match w.queue with
    | [] => (w, [])
    | task :: queue =>
      match p.write w.store task with
      | none => ({ w with memory := none, queue := [] }, [])
      | some store => ({ w with queue, store }, [])
  | .restart =>
    match p.start w.store with
    | none => ({ w with memory := none, queue := [] }, [])
    | some started => (⟨some started.1, [], started.2⟩, [])

theorem step_restart {w : Plant σ μ ω} {m : μ} {s : σ} (h : p.start w.store = some (m, s)) :
    p.step w .restart = (⟨some m, [], s⟩, []) := by
  rw [step, h]

/-- The memory behind some requests. -/
def after (m : μ) (es : List ε) : μ := es.foldl (fun m e => (p.serve m e).1) m

/-- What they post. -/
def posts : μ → List ε → List ω
  | _, [] => []
  | m, e :: es => (p.serve m e).2.2 ++ posts (p.serve m e).1 es

/-- Writes, one after the other. -/
def writeAll : σ → List ω → Option σ
  | s, [] => some s
  | s, task :: tasks => (p.write s task).bind fun s => writeAll s tasks

theorem posts_append (m : μ) (es fs : List ε) :
    p.posts m (es ++ fs) = p.posts m es ++ p.posts (p.after m es) fs := by
  induction es generalizing m with
  | nil => rfl
  | cons e es ih =>
    rw [List.cons_append, posts, posts, ih, List.append_assoc]
    rfl

theorem writeAll_append (s : σ) (ws us : List ω) :
    p.writeAll s (ws ++ us) = (p.writeAll s ws).bind fun s => p.writeAll s us := by
  induction ws generalizing s with
  | nil => rfl
  | cons w ws ih =>
    rw [List.cons_append, writeAll, writeAll, Option.bind_assoc]
    exact congrArg _ (funext ih)

end Process

namespace Spec

variable (spec : Spec α ε ο)

/-- The state behind some requests. -/
def after (a : α) (es : List ε) : α := es.foldl (fun a e => (spec.serve a e).1) a

/-- The number of their writes. -/
def total : α → List ε → ℕ
  | _, [] => 0
  | a, e :: es => spec.writes a e + total (spec.serve a e).1 es

/-- What a restart finds when `k` writes of the requests have run. -/
def found : α → List ε → ℕ → Option α
  | a, [], _ => some a
  | a, e :: es, k =>
    if spec.writes a e ≤ k then found (spec.serve a e).1 es (k - spec.writes a e)
    else if k = 0 then some a
    else spec.cut a e k

def step (v : Option (Log α ε)) (event : Event ε) : Option (Log α ε) × List ο :=
  match v, event with
  | none, _ => (none, [])
  | some l, .request e =>
    (some { l with requests := l.requests ++ [e] },
      [(spec.serve (spec.after l.base l.requests) e).2])
  | some l, .write =>
    (some { l with written := min (l.written + 1) (spec.total l.base l.requests) }, [])
  | some l, .restart => ((spec.found l.base l.requests l.written).map fun a => ⟨a, [], 0⟩, [])

/-- **What a restart finds**: the state behind the last request whose writes have all run, or what
is found behind some writes of the next one. -/
theorem found_of_writes (a : α) (es : List ε) (k : ℕ) :
    ∃ done rest, es = done ++ rest ∧ spec.total a done ≤ k ∧
      (spec.found a es k = some (spec.after a done) ∧
          (rest = [] ∨ k = spec.total a done) ∨
        ∃ e later, rest = e :: later ∧ 0 < k - spec.total a done ∧
          k - spec.total a done < spec.writes (spec.after a done) e ∧
          spec.found a es k = spec.cut (spec.after a done) e (k - spec.total a done)) := by
  induction es generalizing a k with
  | nil => exact ⟨[], [], rfl, Nat.zero_le k, .inl ⟨rfl, .inl rfl⟩⟩
  | cons e es ih =>
    by_cases hle : spec.writes a e ≤ k
    · obtain ⟨done, rest, hes, htotal, hfound⟩ := ih (spec.serve a e).1 (k - spec.writes a e)
      have hsub : k - spec.total a (e :: done) =
          k - spec.writes a e - spec.total (spec.serve a e).1 done := by
        rw [total, Nat.sub_add_eq]
      have hwhole : spec.found a (e :: es) k =
          spec.found (spec.serve a e).1 es (k - spec.writes a e) := if_pos hle
      refine ⟨e :: done, rest, congrArg (e :: ·) hes, ?_, ?_⟩
      · rw [total]
        omega
      · rw [hsub, hwhole]
        refine hfound.imp (fun h => ⟨h.1, h.2.imp_right fun hk => ?_⟩) id
        rw [total]
        omega
    · by_cases hk : k = 0
      · refine ⟨[], e :: es, rfl, Nat.zero_le k, .inl ⟨?_, .inr hk⟩⟩
        rw [found, if_neg hle, if_pos hk]
        rfl
      · refine ⟨[], e :: es, rfl, Nat.zero_le k, .inr ⟨e, es, rfl, ?_, ?_, ?_⟩⟩
        · exact Nat.pos_of_ne_zero hk
        · exact Nat.lt_of_not_le hle
        · rw [found, if_neg hle, if_neg hk]
          rfl

end Spec

/-- **The process implements the specification**: requests have the same answers, their writes bring
a store up to date with the memory they were made from, and a restart between two of them finds what
the specification says. -/
structure Implements (p : Process σ μ ω ε ο) (spec : Spec α ε ο) (Stands : μ → α → Prop)
    (Keeps : σ → μ → Prop) : Prop where
  starts : ∀ {s m a}, Keeps s m → Stands m a →
    ∃ m' s', p.start s = some (m', s') ∧ Keeps s' m' ∧ Stands m' a
  serves : ∀ {m a} e, Stands m a → (p.serve m e).2.1 = (spec.serve a e).2 ∧
    (p.serve m e).2.2.length = spec.writes a e ∧ Stands (p.serve m e).1 (spec.serve a e).1
  saves : ∀ {s m a} e, Keeps s m → Stands m a →
    ∃ s', p.writeAll s (p.serve m e).2.2 = some s' ∧ Keeps s' (p.serve m e).1
  cuts : ∀ {s s' m a e k}, Keeps s m → Stands m a → 0 < k → k < spec.writes a e →
    p.writeAll s ((p.serve m e).2.2.take k) = some s' →
      match spec.cut a e k with
      | none => p.start s' = none
      | some a' => ∃ m' s'', p.start s' = some (m', s'') ∧ Keeps s'' m' ∧ Stands m' a'

variable {p : Process σ μ ω ε ο} {spec : Spec α ε ο} {Stands : μ → α → Prop} {Keeps : σ → μ → Prop}
  {w : Plant σ μ ω} {v : Option (Log α ε)} {s s' : σ} {m : μ} {a : α} {e : ε} {k : ℕ}

/-- What a start from the store comes to is what is found. -/
def Starts (p : Process σ μ ω ε ο) (Stands : μ → α → Prop) (Keeps : σ → μ → Prop) (s : σ) :
    Option α → Prop
  | none => p.start s = none
  | some a => ∃ m s', p.start s = some (m, s') ∧ Keeps s' m ∧ Stands m a

/-- **The plant is at the log**: its store has come from one that kept the memory of the last start,
by the writes that have run, and the others are in the queue. -/
structure AtLog (p : Process σ μ ω ε ο) (Stands : μ → α → Prop) (Keeps : σ → μ → Prop)
    (w : Plant σ μ ω) (l : Log α ε) (s : σ) (m : μ) : Prop where
  keeps : Keeps s m
  stands : Stands m l.base
  memory : w.memory = some (p.after m l.requests)
  written : l.written ≤ (p.posts m l.requests).length
  queue : w.queue = (p.posts m l.requests).drop l.written
  store : p.writeAll s ((p.posts m l.requests).take l.written) = some w.store

/-- The plant runs at the log, or neither it nor the next start can. -/
def Agrees (p : Process σ μ ω ε ο) (Stands : μ → α → Prop) (Keeps : σ → μ → Prop)
    (w : Plant σ μ ω) : Option (Log α ε) → Prop
  | none => w.memory = none ∧ w.queue = [] ∧ p.start w.store = none
  | some l => ∃ s m, AtLog p Stands Keeps w l s m

namespace Implements

theorem stands_after (h : Implements p spec Stands Keeps) (hm : Stands m a) (es : List ε) :
    Stands (p.after m es) (spec.after a es) := by
  induction es generalizing m a with
  | nil => exact hm
  | cons e es ih => exact ih (h.serves e hm).2.2

theorem length_posts (h : Implements p spec Stands Keeps) (hm : Stands m a) (es : List ε) :
    (p.posts m es).length = spec.total a es := by
  induction es generalizing m a with
  | nil => rfl
  | cons e es ih =>
    obtain ⟨-, hlen, hnext⟩ := h.serves e hm
    rw [Process.posts, Spec.total, List.length_append, hlen, ih hnext]

/-- All writes of some requests bring the store up to date. -/
theorem keeps_after (h : Implements p spec Stands Keeps) (hs : Keeps s m) (hm : Stands m a)
    (es : List ε) : ∃ s', p.writeAll s (p.posts m es) = some s' ∧ Keeps s' (p.after m es) := by
  induction es generalizing s m a with
  | nil => exact ⟨s, rfl, hs⟩
  | cons e es ih =>
    obtain ⟨s₁, hwrite, hkeeps⟩ := h.saves e hs hm
    obtain ⟨s₂, hwrites, hafter⟩ := ih hkeeps (h.serves e hm).2.2
    refine ⟨s₂, ?_, hafter⟩
    rw [Process.posts, p.writeAll_append, hwrite]
    exact hwrites

/-- **A restart finds what the specification says**, however many writes have run. -/
theorem starts_found (h : Implements p spec Stands Keeps) (hs : Keeps s m) (hm : Stands m a)
    {es : List ε} (hk : k ≤ (p.posts m es).length)
    (hwrite : p.writeAll s ((p.posts m es).take k) = some s') :
    Starts p Stands Keeps s' (spec.found a es k) := by
  induction es generalizing s m a k with
  | nil =>
    rw [Process.posts, List.take_nil] at hwrite
    cases hwrite
    exact h.starts hs hm
  | cons e es ih =>
    obtain ⟨-, hlen, hnext⟩ := h.serves e hm
    obtain ⟨s₁, hfirst, hkeeps⟩ := h.saves e hs hm
    rw [Process.posts] at hk hwrite
    rw [List.length_append, hlen] at hk
    rw [Spec.found]
    by_cases hle : spec.writes a e ≤ k
    · rw [if_pos hle]
      rw [List.take_append, List.take_of_length_le (hlen ▸ hle), p.writeAll_append, hfirst,
        hlen] at hwrite
      exact ih hkeeps hnext (by omega) hwrite
    · rw [if_neg hle]
      rw [List.take_append_of_le_length (hlen ▸ Nat.le_of_not_le hle)] at hwrite
      by_cases hk0 : k = 0
      · subst hk0
        cases hwrite
        exact h.starts hs hm
      · rw [if_neg hk0]
        have hcut := h.cuts hs hm (Nat.pos_of_ne_zero hk0) (Nat.lt_of_not_le hle) hwrite
        cases hfound : spec.cut a e k with
        | none => rwa [hfound] at hcut
        | some a' => rwa [hfound] at hcut

/-- **The next write** takes the store on. -/
theorem store_succ (h : Implements p spec Stands Keeps) (hs : Keeps s m) (hm : Stands m a)
    {es : List ε} (hk : k < (p.posts m es).length)
    (hwrite : p.writeAll s ((p.posts m es).take k) = some s') :
    ∃ s'', p.write s' ((p.posts m es).get ⟨k, hk⟩) = some s'' ∧
      p.writeAll s ((p.posts m es).take (k + 1)) = some s'' := by
  obtain ⟨last, hall, -⟩ := h.keeps_after hs hm es
  have hsplit := List.take_append_drop (k + 1) (p.posts m es)
  rw [← hsplit, p.writeAll_append] at hall
  obtain ⟨s'', htake, -⟩ := Option.bind_eq_some_iff.mp hall
  refine ⟨s'', ?_, htake⟩
  rw [List.take_succ_eq_append_getElem hk, p.writeAll_append, hwrite, Option.bind_some,
    Process.writeAll] at htake
  obtain ⟨t, hone, hnil⟩ := Option.bind_eq_some_iff.mp htake
  cases hnil
  exact hone

/-- A write runs, or there is none. -/
theorem step_write (h : Implements p spec Stands Keeps) {l : Log α ε}
    (hlog : AtLog p Stands Keeps w l s m) :
    (p.step w .write).2 = (spec.step (some l) .write).2 ∧
      Agrees p Stands Keeps (p.step w .write).1 (spec.step (some l) .write).1 := by
  have htotal := h.length_posts hlog.stands l.requests
  rcases Nat.lt_or_eq_of_le hlog.written with hlt | heq
  · obtain ⟨s'', hwrite, hstore⟩ := h.store_succ hlog.keeps hlog.stands hlt hlog.store
    have hqueue : w.queue = (p.posts m l.requests).get ⟨l.written, hlt⟩ ::
        (p.posts m l.requests).drop (l.written + 1) :=
      hlog.queue.trans (List.drop_eq_getElem_cons hlt)
    rw [Process.step, hqueue]
    simp only [hwrite]
    refine ⟨rfl, s, m, hlog.keeps, hlog.stands, hlog.memory, ?_, ?_, ?_⟩
    · exact Nat.le_trans (Nat.min_le_left _ _) hlt
    · rw [Nat.min_eq_left (htotal ▸ hlt)]
    · rw [Nat.min_eq_left (htotal ▸ hlt)]
      exact hstore
  · have hqueue : w.queue = [] := by rw [hlog.queue, heq, List.drop_length]
    have hmin : min (l.written + 1) (spec.total l.base l.requests) = l.written := by omega
    rw [Process.step, hqueue, Spec.step, hmin]
    exact ⟨rfl, s, m, hlog⟩

/-- **The step lemma**: the same answer, and the plant is at the log again. -/
theorem step (h : Implements p spec Stands Keeps) (hw : Agrees p Stands Keeps w v)
    (event : Event ε) : (p.step w event).2 = (spec.step v event).2 ∧
      Agrees p Stands Keeps (p.step w event).1 (spec.step v event).1 := by
  cases v with
  | none =>
    obtain ⟨hmemory, hqueue, hstart⟩ := hw
    cases event with
    | request e =>
      rw [Process.step, hmemory]
      exact ⟨rfl, hmemory, hqueue, hstart⟩
    | write =>
      rw [Process.step, hqueue]
      exact ⟨rfl, hmemory, hqueue, hstart⟩
    | restart =>
      rw [Process.step, hstart]
      exact ⟨rfl, rfl, rfl, hstart⟩
  | some l =>
    obtain ⟨s, m, hlog⟩ := hw
    have hstands := h.stands_after hlog.stands l.requests
    cases event with
    | request e =>
      obtain ⟨hanswer, hlen, -⟩ := h.serves e hstands
      rw [Process.step, hlog.memory]
      refine ⟨congrArg ([·]) hanswer, s, m, hlog.keeps, hlog.stands, ?_, ?_, ?_, ?_⟩
      · simp [Process.after]
      · rw [p.posts_append, List.length_append]
        exact Nat.le_trans hlog.written (Nat.le_add_right _ _)
      · rw [p.posts_append, List.drop_append_of_le_length hlog.written, ← hlog.queue]
        simp [Process.posts]
      · rw [p.posts_append, List.take_append_of_le_length hlog.written]
        exact hlog.store
    | write => exact h.step_write hlog
    | restart =>
      have hstarts := h.starts_found hlog.keeps hlog.stands hlog.written hlog.store
      cases hfound : spec.found l.base l.requests l.written with
      | none =>
        rw [hfound] at hstarts
        have hstart : p.start w.store = none := hstarts
        rw [Process.step, Spec.step, hstart, hfound]
        exact ⟨rfl, rfl, rfl, hstart⟩
      | some a =>
        rw [hfound] at hstarts
        obtain ⟨m', s', hstart, hkeeps, hm'⟩ := hstarts
        rw [p.step_restart hstart, Spec.step, hfound]
        exact ⟨rfl, s', m', hkeeps, hm', rfl, Nat.zero_le _, rfl, rfl⟩

/-- **The run lemma**: the plant is at the log at the end of a run. -/
theorem agrees_of_run (h : Implements p spec Stands Keeps) (hw : Agrees p Stands Keeps w v)
    (es : List (Event ε)) :
    Agrees p Stands Keeps (Run.exec (Run.next p.step) w es)
      (Run.exec (Run.next spec.step) v es) := by
  induction es generalizing w v with
  | nil => exact hw
  | cons e es ih => exact ih (h.step hw e).2

/-- **A run gives the answers of the specification**, whenever its writes run and wherever it is
started again. -/
theorem trace_eq (h : Implements p spec Stands Keeps) (hw : Agrees p Stands Keeps w v)
    (es : List (Event ε)) : Run.trace p.step w es = Run.trace spec.step v es := by
  induction es generalizing w v with
  | nil => rfl
  | cons e es ih =>
    obtain ⟨hanswer, hnext⟩ := h.step hw e
    rw [Run.trace, Run.trace, hanswer]
    exact congrArg (_ ++ ·) (ih hnext)

/-! ## From the first start -/

theorem agrees_of_starts (hs : Starts p Stands Keeps w.store (some a)) :
    (p.step w .restart).2 = [] ∧
      Agrees p Stands Keeps (p.step w .restart).1 (some (⟨a, [], 0⟩ : Log α ε)) := by
  obtain ⟨m, s, hstart, hkeeps, hm⟩ := hs
  rw [p.step_restart hstart]
  exact ⟨rfl, s, m, hkeeps, hm, rfl, Nat.zero_le _, rfl, rfl⟩

theorem trace_of_starts (h : Implements p spec Stands Keeps)
    (hs : Starts p Stands Keeps w.store (some a)) (es : List (Event ε)) :
    Run.trace p.step w (.restart :: es) = Run.trace spec.step (some ⟨a, [], 0⟩) es := by
  obtain ⟨hsilent, hagrees⟩ := agrees_of_starts hs
  rw [Run.trace, hsilent, List.nil_append]
  exact h.trace_eq hagrees es

/-- **The next start** finds what the log says, wherever the run is cut. -/
theorem starts_of_run (h : Implements p spec Stands Keeps)
    (hs : Starts p Stands Keeps w.store (some a)) (es : List (Event ε)) :
    Starts p Stands Keeps (Run.exec (Run.next p.step) w (.restart :: es)).store
      ((Run.exec (Run.next spec.step) (some ⟨a, [], 0⟩) es).bind fun l =>
        spec.found l.base l.requests l.written) := by
  have hagrees := h.agrees_of_run (agrees_of_starts hs).2 es
  cases hlog : Run.exec (Run.next spec.step) (some ⟨a, [], 0⟩) es with
  | none =>
    rw [hlog] at hagrees
    exact hagrees.2.2
  | some l =>
    rw [hlog] at hagrees
    obtain ⟨s, m, hat⟩ := hagrees
    exact h.starts_found hat.keeps hat.stands hat.written hat.store

end Implements

end WriteBehind
