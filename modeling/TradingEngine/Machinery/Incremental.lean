import Mathlib.Data.List.Infix
import Mathlib.Tactic.Common

/-!
# Machinery/Incremental — reading a stream that arrives in pieces

A `Reader` keeps a state and the bytes it has not used yet, and turns until it has to wait.  `Takes`
says that a token is used as a whole and that nothing is done before its last byte; a stream that is
a `Path` of tokens is then read the same way however it is cut.

* `feedAll_out` — what is given out is what the tokens that have arrived give out.
* `feedAll_whole` — the state and the unused bytes at the end of the stream.

Of a reader that is `Local` it is enough to know where its calls stop (`last`): what comes behind is
read from there (`Local.append`), and what is used up does not depend on it
(`Local.exists_consumed`).
-/

namespace Incremental

variable {σ α β : Type*}

/-- What a reader does in one turn: it waits, or it goes on. -/
inductive Turn (σ α β : Type*)
  | stop (state : σ) (rest : List α)
  | next (state : σ) (out : List β) (rest : List α)

/-- What a call leaves: the state, what was given out, and the bytes that are not used. -/
@[ext] structure After (σ α β : Type*) where
  state : σ
  out : List β
  rest : List α

/-- Something was given out before. -/
def After.prepend (out : List β) (after : After σ α β) : After σ α β :=
  { after with out := out ++ after.out }

@[simp] theorem After.state_prepend (out : List β) (after : After σ α β) :
    (after.prepend out).state = after.state := rfl

@[simp] theorem After.out_prepend (out : List β) (after : After σ α β) :
    (after.prepend out).out = out ++ after.out := rfl

@[simp] theorem After.rest_prepend (out : List β) (after : After σ α β) :
    (after.prepend out).rest = after.rest := rfl

/-- A reader: a turn that goes on makes the measure smaller. -/
structure Reader (σ α β : Type*) where
  step : σ → List α → Turn σ α β
  size : σ → List α → ℕ
  decreases : ∀ {s : σ} {buf : List α} {s' : σ} {out : List β} {rest : List α},
    step s buf = .next s' out rest → size s' rest < size s buf

namespace Reader

variable (r : Reader σ α β)

/-- Turns until the reader waits. -/
def loop : ℕ → σ → List α → After σ α β
  | 0, s, buf => ⟨s, [], buf⟩
  | fuel + 1, s, buf =>
    match r.step s buf with
    | .stop s' rest => ⟨s', [], rest⟩
    | .next s' out rest => (loop fuel s' rest).prepend out

/-- A call: as many turns as the measure allows. -/
def drain (s : σ) (buf : List α) : After σ α β := r.loop (r.size s buf + 1) s buf

/-- One call after each piece. -/
def feedAll (s : σ) (rest : List α) : List (List α) → After σ α β
  | [] => ⟨s, [], rest⟩
  | piece :: pieces =>
    (feedAll (r.drain s (rest ++ piece)).state (r.drain s (rest ++ piece)).rest pieces).prepend
      (r.drain s (rest ++ piece)).out

variable {r} {s s₁ s' : σ} {buf rest t tail : List α} {out : List β}

/-- Any fuel above the measure gives the same. -/
theorem loop_congr {fuel fuel' : ℕ} (h : r.size s buf < fuel) (h' : r.size s buf < fuel') :
    r.loop fuel s buf = r.loop fuel' s buf := by
  induction fuel generalizing fuel' s buf with
  | zero => exact absurd h (Nat.not_lt_zero _)
  | succ fuel ih =>
    obtain ⟨fuel', rfl⟩ := Nat.exists_eq_succ_of_ne_zero (Nat.ne_zero_of_lt h')
    rw [loop, loop]
    cases hstep : r.step s buf with
    | stop s' rest => rfl
    | next s' out rest =>
      have hlt := r.decreases hstep
      exact congrArg (After.prepend out) (ih (by omega) (by omega))

theorem loop_eq_drain {fuel : ℕ} (h : r.size s buf < fuel) : r.loop fuel s buf = r.drain s buf :=
  loop_congr h (Nat.lt_succ_self _)

theorem drain_stop (h : r.step s buf = .stop s' rest) : r.drain s buf = ⟨s', [], rest⟩ := by
  rw [drain, loop, h]

theorem drain_next (h : r.step s buf = .next s' out rest) :
    r.drain s buf = (r.drain s' rest).prepend out := by
  rw [drain, loop, h]
  dsimp only
  rw [loop_eq_drain (r.decreases h)]

/-! ## Tokens -/

variable (r)

/-- The reader uses `t` as a whole, and waits while a part of it is there. -/
structure Takes (s : σ) (t : List α) (out : List β) (s' : σ) : Prop where
  ne_nil : t ≠ []
  whole : ∀ rest, r.step s (t ++ rest) = .next s' out rest
  part : ∀ {p}, p <+: t → p ≠ t → r.step s p = .stop s p

/-- The reader waits, whatever part of `tail` is there. -/
def Waits (s : σ) (tail : List α) : Prop := ∀ {p}, p <+: tail → r.step s p = .stop s p

/-- The reader uses the tokens one after the other. -/
inductive Path : σ → List (List α × List β) → σ → Prop
  | nil (s : σ) : Path s [] s
  | cons {s s₁ s' : σ} {t : List α} {out : List β} {ts : List (List α × List β)}
      (h : r.Takes s t out s₁) (hpath : Path s₁ ts s') : Path s ((t, out) :: ts) s'

variable {r} {ts ts₁ : List (List α × List β)}

/-- The stream the tokens make, and what they give out. -/
def bytes (ts : List (List α × List β)) : List α := (ts.map (·.1)).flatten

def outs (ts : List (List α × List β)) : List β := (ts.map (·.2)).flatten

/-- What the tokens that end within the first `n` bytes give out. -/
def arrived : List (List α × List β) → ℕ → List β
  | [], _ => []
  | (t, out) :: ts, n => if t.length ≤ n then out ++ arrived ts (n - t.length) else []

/-- The first token is not there yet. -/
def Stuck (ts : List (List α × List β)) (n : ℕ) : Prop := ∀ tok ∈ ts.head?, n < tok.1.length

@[simp] theorem bytes_nil : bytes ([] : List (List α × List β)) = [] := rfl

@[simp] theorem bytes_cons (tok : List α × List β) :
    bytes (tok :: ts) = tok.1 ++ bytes ts := rfl

@[simp] theorem bytes_append : bytes (ts ++ ts₁) = bytes ts ++ bytes ts₁ := by
  rw [bytes, List.map_append, List.flatten_append]
  rfl

@[simp] theorem outs_nil : outs ([] : List (List α × List β)) = [] := rfl

@[simp] theorem outs_cons (tok : List α × List β) : outs (tok :: ts) = tok.2 ++ outs ts := rfl

@[simp] theorem outs_append : outs (ts ++ ts₁) = outs ts ++ outs ts₁ := by
  rw [outs, List.map_append, List.flatten_append]
  rfl

theorem Path.append (h : r.Path s ts s₁) (h' : r.Path s₁ ts₁ s') : r.Path s (ts ++ ts₁) s' := by
  induction h with
  | nil => exact h'
  | cons htakes _ ih => exact .cons htakes (ih h')

/-- Over the whole stream everything is given out. -/
theorem arrived_append (n : ℕ) :
    arrived (ts ++ ts₁) ((bytes ts).length + n) = outs ts ++ arrived ts₁ n := by
  induction ts with
  | nil => rw [List.nil_append, bytes_nil, List.length_nil, Nat.zero_add, outs_nil, List.nil_append]
  | cons tok ts ih =>
    rw [List.cons_append, arrived, bytes_cons, List.length_append, if_pos (by omega), outs_cons,
      List.append_assoc, ← ih]
    congr 2
    omega

/-- Nothing is given out before the first token. -/
theorem arrived_of_stuck {n : ℕ} (h : Stuck ts n) : arrived ts n = [] := by
  cases ts with
  | nil => rfl
  | cons tok ts =>
    rw [arrived, if_neg]
    exact Nat.not_le.mpr (h tok rfl)

/-- Nothing is given out before the end of the first token that gives something out. -/
theorem arrived_of_lt {n : ℕ} {tok : List α × List β} (hts : outs ts = [])
    (hlt : n < (bytes ts).length + tok.1.length) : arrived (ts ++ tok :: ts₁) n = [] := by
  induction ts generalizing n with
  | nil =>
    rw [List.nil_append, arrived, if_neg]
    rw [bytes_nil, List.length_nil] at hlt
    omega
  | cons first ts ih =>
    rw [outs_cons, List.append_eq_nil_iff] at hts
    rw [bytes_cons, List.length_append] at hlt
    rw [List.cons_append, arrived]
    split_ifs with h
    · rw [hts.1, List.nil_append, ih hts.2 (by omega)]
    · rfl

/-! ## Reading a path -/

/-- **A call on a part of the stream** uses the tokens that are there and waits in the next one. -/
theorem drain_path (hpath : r.Path s ts s') (hwaits : r.Waits s' tail)
    (hbuf : buf <+: bytes ts ++ tail) :
    ∃ done todo, ts = done ++ todo ∧ r.Path (r.drain s buf).state todo s' ∧
      (r.drain s buf).out = outs done ∧ buf = bytes done ++ (r.drain s buf).rest ∧
      Stuck todo (r.drain s buf).rest.length := by
  induction hpath generalizing buf with
  | nil s =>
    rw [drain_stop (hwaits hbuf)]
    exact ⟨[], [], rfl, .nil s, rfl, rfl, fun tok htok => absurd htok (Option.not_mem_none tok)⟩
  | @cons s s₁ s' t out ts htakes hpath ih =>
    rw [bytes_cons, List.append_assoc] at hbuf
    by_cases hlt : buf.length < t.length
    · -- the first token is not there
      have hpre : buf <+: t :=
        List.prefix_of_prefix_length_le hbuf (List.prefix_append _ _) hlt.le
      rw [drain_stop (htakes.part hpre fun heq => Nat.ne_of_lt hlt (congrArg List.length heq))]
      refine ⟨[], _, rfl, .cons htakes hpath, rfl, rfl, fun tok htok => ?_⟩
      rw [List.head?_cons, Option.mem_some_iff] at htok
      exact htok ▸ hlt
    · -- the first token is used
      obtain ⟨buf', rfl⟩ : t <+: buf :=
        List.prefix_of_prefix_length_le (List.prefix_append _ _) hbuf (Nat.not_lt.mp hlt)
      rw [List.prefix_append_right_inj] at hbuf
      obtain ⟨done, todo, rfl, hdrain, hout, hbytes, hstuck⟩ := ih hwaits hbuf
      rw [drain_next (htakes.whole buf')]
      refine ⟨(t, out) :: done, todo, rfl, hdrain, ?_, ?_, hstuck⟩
      · rw [After.out_prepend, hout, outs_cons]
      · rw [bytes_cons, List.append_assoc, After.rest_prepend, ← hbytes]

/-- **A call after each piece**, as far as the stream has come. -/
theorem feedAll_path (hpath : r.Path s ts s') (hwaits : r.Waits s' tail)
    (hstuck : Stuck ts rest.length) {pieces : List (List α)}
    (hpre : rest ++ pieces.flatten <+: bytes ts ++ tail) :
    ∃ done todo, ts = done ++ todo ∧ r.Path (r.feedAll s rest pieces).state todo s' ∧
      (r.feedAll s rest pieces).out = outs done ∧
      rest ++ pieces.flatten = bytes done ++ (r.feedAll s rest pieces).rest ∧
      Stuck todo (r.feedAll s rest pieces).rest.length := by
  induction pieces generalizing s rest ts with
  | nil => exact ⟨[], ts, rfl, hpath, rfl, List.append_nil rest, hstuck⟩
  | cons piece pieces ih =>
    rw [List.flatten_cons, ← List.append_assoc] at hpre ⊢
    obtain ⟨done, todo, rfl, hdrain, hout, hbytes, hstuck'⟩ :=
      drain_path hpath hwaits ((List.prefix_append _ _).trans hpre)
    rw [hbytes, bytes_append, List.append_assoc, List.append_assoc,
      List.prefix_append_right_inj] at hpre
    obtain ⟨done', todo', rfl, hfeed, hout', hbytes', hstuck''⟩ := ih hdrain hstuck' hpre
    refine ⟨done ++ done', todo', (List.append_assoc _ _ _).symm, hfeed, ?_, ?_, hstuck''⟩
    · rw [feedAll, After.out_prepend, hout, hout', outs_append]
    · rw [hbytes, List.append_assoc, hbytes', bytes_append, List.append_assoc]
      rfl

/-- Before the stream no token is there. -/
theorem Path.stuck_nil (hpath : r.Path s ts s') : Stuck ts ([] : List α).length := by
  intro tok htok
  cases hpath with
  | nil => exact absurd htok (Option.not_mem_none tok)
  | cons htakes _ =>
    rw [List.head?_cons, Option.mem_some_iff] at htok
    exact htok ▸ List.length_pos_of_ne_nil htakes.ne_nil

/-- **What is given out is what has arrived.** -/
theorem feedAll_out (hpath : r.Path s ts s') (hwaits : r.Waits s' tail) {pieces : List (List α)}
    (hpre : pieces.flatten <+: bytes ts ++ tail) :
    (r.feedAll s [] pieces).out = arrived ts pieces.flatten.length := by
  obtain ⟨done, todo, rfl, -, hout, hbytes, hstuck⟩ :=
    feedAll_path hpath hwaits hpath.stuck_nil hpre
  rw [List.nil_append] at hbytes
  rw [hout, hbytes, List.length_append, arrived_append, arrived_of_stuck hstuck, List.append_nil]

/-- **At the end of the stream** everything is given out, and the tail is left. -/
theorem feedAll_whole (hpath : r.Path s ts s') (hwaits : r.Waits s' tail) {pieces : List (List α)}
    (hpieces : pieces.flatten = bytes ts ++ tail) :
    r.feedAll s [] pieces = ⟨s', outs ts, tail⟩ := by
  have hpre : pieces.flatten <+: bytes ts ++ tail := by rw [hpieces]
  obtain ⟨done, todo, rfl, hfeed, hout, hbytes, hstuck⟩ :=
    feedAll_path hpath hwaits hpath.stuck_nil hpre
  rw [List.nil_append, hpieces, bytes_append, List.append_assoc,
    List.append_cancel_left_eq] at hbytes
  cases todo with
  | cons tok todo =>
    have hlt := hstuck tok rfl
    rw [← hbytes, bytes_cons, List.append_assoc, List.length_append] at hlt
    omega
  | nil =>
    rw [List.append_nil]
    cases hfeed
    exact After.ext rfl hout hbytes.symm

/-- The stream in one call. -/
theorem drain_whole (hpath : r.Path s ts s') (hwaits : r.Waits s' tail) :
    r.drain s (bytes ts ++ tail) = ⟨s', outs ts, tail⟩ := by
  have hfeed := feedAll_whole hpath hwaits (List.flatten_singleton (l := bytes ts ++ tail))
  rw [feedAll, feedAll, List.nil_append] at hfeed
  rw [← hfeed, After.prepend, List.append_nil]

/-! ## Where a call stops -/

variable (r)

/-- Where the last turn of a call is taken. -/
def last (s : σ) (buf : List α) : σ × List α :=
  match _h : r.step s buf with
  | .stop _ _ => (s, buf)
  | .next s' _ rest => last s' rest
termination_by r.size s buf
decreasing_by exact r.decreases _h

/-- **The induction over the turns of a call.** -/
@[elab_as_elim] theorem turns_induction {motive : σ → List α → Prop}
    (stop : ∀ s buf s' rest, r.step s buf = .stop s' rest → motive s buf)
    (next : ∀ s buf s' out rest, r.step s buf = .next s' out rest → motive s' rest → motive s buf)
    (s : σ) (buf : List α) : motive s buf := by
  induction hsize : r.size s buf using Nat.strong_induction_on generalizing s buf with
  | _ n ih =>
    cases hstep : r.step s buf with
    | stop s' rest => exact stop s buf s' rest hstep
    | next s' out rest =>
      refine next s buf s' out rest hstep (ih _ ?_ s' rest rfl)
      exact hsize ▸ r.decreases hstep

/-- A turn that goes on uses a token, whatever comes behind it. -/
def Local : Prop :=
  ∀ {s : σ} {buf : List α} {s' : σ} {out : List β} {rest : List α}, r.step s buf = .next s' out rest →
    ∃ t, buf = t ++ rest ∧ ∀ more, r.step s (t ++ more) = .next s' out more

variable {r} {more : List α}

theorem last_stop (h : r.step s buf = .stop s' rest) : r.last s buf = (s, buf) := by
  rw [last]
  split
  · rfl
  · rename_i hnext
    rw [h] at hnext
    cases hnext

theorem last_next (h : r.step s buf = .next s' out rest) : r.last s buf = r.last s' rest := by
  rw [last]
  split
  · rename_i hstop
    rw [h] at hstop
    cases hstop
  · rename_i hnext
    rw [h] at hnext
    cases hnext
    rfl

/-- A call ends with the turn that stops. -/
theorem drain_of_last (h : r.step (r.last s buf).1 (r.last s buf).2 = .stop s' rest) :
    (r.drain s buf).state = s' ∧ (r.drain s buf).rest = rest := by
  induction s, buf using r.turns_induction with
  | stop s buf s₁ rest₁ hstop =>
    rw [last_stop hstop, hstop] at h
    cases h
    rw [drain_stop hstop]
    exact ⟨rfl, rfl⟩
  | next s buf s₁ out rest₁ hnext ih =>
    rw [last_next hnext] at h
    rw [drain_next hnext]
    exact ih h

theorem exists_stop_last (s : σ) (buf : List α) :
    ∃ s' rest, r.step (r.last s buf).1 (r.last s buf).2 = .stop s' rest := by
  induction s, buf using r.turns_induction with
  | stop s buf s' rest hstop => exact ⟨s', rest, by rw [last_stop hstop]; exact hstop⟩
  | next s buf s' out rest hnext ih =>
    rw [last_next hnext]
    exact ih

/-- **What a call has used up** is used up in front of anything else. -/
theorem Local.exists_consumed (h : r.Local) (s : σ) (buf : List α) :
    ∃ c, buf = c ++ (r.last s buf).2 ∧ ∀ more,
      r.last s (c ++ more) = r.last (r.last s buf).1 more ∧
        r.drain s (c ++ more) = (r.drain (r.last s buf).1 more).prepend (r.drain s buf).out := by
  induction s, buf using r.turns_induction with
  | stop s buf s' rest hstop =>
    rw [last_stop hstop, drain_stop hstop]
    exact ⟨[], rfl, fun more => ⟨rfl, rfl⟩⟩
  | next s buf s' out rest hnext ih =>
    obtain ⟨t, hbuf, htoken⟩ := h hnext
    obtain ⟨c, hrest, hread⟩ := ih
    rw [last_next hnext, drain_next hnext]
    refine ⟨t ++ c, by rw [List.append_assoc, ← hrest, hbuf], fun more => ?_⟩
    obtain ⟨hlast, hdrain⟩ := hread more
    rw [List.append_assoc, last_next (htoken _), drain_next (htoken _), hlast, hdrain]
    refine ⟨rfl, ?_⟩
    rw [After.out_prepend, After.prepend, After.prepend, After.prepend, List.append_assoc]

/-- **More to read** is read where the call has stopped. -/
theorem Local.append (h : r.Local) (s : σ) (buf more : List α) :
    r.last s (buf ++ more) = r.last (r.last s buf).1 ((r.last s buf).2 ++ more) ∧
      r.drain s (buf ++ more) =
        (r.drain (r.last s buf).1 ((r.last s buf).2 ++ more)).prepend (r.drain s buf).out := by
  obtain ⟨c, hbuf, hread⟩ := h.exists_consumed s buf
  have hsplit : buf ++ more = c ++ ((r.last s buf).2 ++ more) := by
    rw [← List.append_assoc, ← hbuf]
  rw [hsplit]
  exact hread _

end Reader

end Incremental
