import Mathlib.Data.List.Flatten
import Mathlib.Data.List.Perm.Basic
import Mathlib.Data.List.Perm.Subperm
import Mathlib.Logic.Function.Basic
import TradingEngine.Machinery.Run

/-!
# Machinery/Parallel — calls that update the same cells side by side

A call updates every cell once.  It does so in parts: a part is one atomic step for all the cells
that belong to it, and the updates of a cell commute.  Any number of calls are under way, and their
parts take effect in any order.

* `cell_of_leads` — a cell holds the updates of the calls whose part is done.
* `settled_of_leads` — once all parts are done, each cell holds what the calls make one after the
  other, in whatever order.
* `between_of_leads` — what a cell holds at any moment of a run is made by calls between those that
  had returned before the run and those that are made by its end.
* `snapshot_of_leads` — so is what a reader finds who visits the cells at different moments, as long
  as each call counts in one of them.
-/

namespace Parallel

open Run

variable {π ι α τ : Type*}

/-- A run goes from one state to the other. -/
def Leads {σ ε : Type*} (step : σ → ε → σ) (s t : σ) : Prop := ∃ es, exec step s es = t

theorem Leads.trans {σ ε : Type*} {step : σ → ε → σ} {s t u : σ} (hst : Leads step s t)
    (htu : Leads step t u) : Leads step s u := by
  obtain ⟨es, rfl⟩ := hst
  obtain ⟨fs, rfl⟩ := htu
  exact ⟨es ++ fs, exec_append step s es fs⟩

/-- The cells, the part of a call each of them belongs to, and what a call does to it. -/
structure Procedure (π ι α τ : Type*) where
  part : ι → π
  update : ι → α → τ → τ
  comm : ∀ i a b t, update i a (update i b t) = update i b (update i a t)

namespace Procedure

/-- What calls make of a cell, the last one first. -/
def fold (P : Procedure π ι α τ) (i : ι) (as : List α) (t : τ) : τ := as.foldr (P.update i) t

theorem fold_perm (P : Procedure π ι α τ) {as bs : List α} (h : as.Perm bs) (i : ι) (t : τ) :
    P.fold i as t = P.fold i bs t :=
  h.foldr_eq' (fun a _ b _ t => P.comm i b a t) t

/-- Only the calls that count in a cell make it what it is. -/
theorem fold_filter [DecidableEq ι] {P : Procedure π ι α τ} {home : α → ι} {i : ι}
    (halone : ∀ a, home a ≠ i → ∀ t, P.update i a t = t) (as : List α) (t : τ) :
    P.fold i (as.filter fun a => home a = i) t = P.fold i as t := by
  induction as with
  | nil => rfl
  | cons a as ih =>
    by_cases ha : home a = i
    · rw [List.filter_cons, if_pos (decide_eq_true ha)]
      exact congrArg (P.update i a) ih
    · rw [List.filter_cons, if_neg (mt of_decide_eq_true ha), ih]
      exact (halone a ha _).symm

end Procedure

/-- A call, with the parts of it that are done. -/
structure Call (π α : Type*) where
  argument : α
  done : π → Bool

/-- The cells and the calls so far. -/
structure State (π ι α τ : Type*) where
  cells : ι → τ
  calls : List (Call π α)

/-- A thread makes a call, or a part of the `k`-th call takes effect. -/
inductive Event (π α : Type*)
  | call (argument : α)
  | effect (k : ℕ) (p : π)

namespace State

/-- The arguments of the calls that are past the part, in the order of the calls. -/
def past (p : π) (s : State π ι α τ) : List α :=
  (s.calls.filter fun c => c.done p).map Call.argument

/-- The arguments of all calls. -/
def made (s : State π ι α τ) : List α := s.calls.map Call.argument

/-- The arguments of the calls of which these parts are done. -/
def returned (parts : List π) (s : State π ι α τ) : List α :=
  (s.calls.filter fun c => parts.all c.done).map Call.argument

theorem past_sublist_made (p : π) (s : State π ι α τ) : (s.past p).Sublist s.made :=
  List.filter_sublist.map _

theorem returned_sublist_past {parts : List π} {p : π} (hp : p ∈ parts) (s : State π ι α τ) :
    (s.returned parts).Sublist (s.past p) := by
  refine List.Sublist.map _ (List.monotone_filter_right _ fun c hc => ?_)
  exact List.all_eq_true.mp hc p hp

end State

/-! ## One step -/

variable [DecidableEq π]

namespace Procedure

variable (P : Procedure π ι α τ)

/-- The part of a call, on the cells. -/
def effect (p : π) (a : α) (cells : ι → τ) (i : ι) : τ :=
  if P.part i = p then P.update i a (cells i) else cells i

def step (s : State π ι α τ) : Event π α → State π ι α τ
  | .call a => { s with calls := s.calls ++ [⟨a, fun _ => false⟩] }
  | .effect k p =>
    match s.calls[k]? with
    | none => s
    | some c =>
      if c.done p then s
      else
        { cells := P.effect p c.argument s.cells
          calls := s.calls.set k { c with done := Function.update c.done p true } }

/-- What a step may do. -/
inductive Move (s : State π ι α τ) : State π ι α τ → Prop
  | stays : Move s s
  | comes (a : α) : Move s { s with calls := s.calls ++ [⟨a, fun _ => false⟩] }
  | takes {pre post : List (Call π α)} {c : Call π α} {p : π}
      (hcalls : s.calls = pre ++ c :: post) (hdone : c.done p = false) :
    Move s
      { cells := P.effect p c.argument s.cells
        calls := pre ++ { c with done := Function.update c.done p true } :: post }

/-- The call at a place of the list. -/
theorem exists_split {β : Type*} {l : List β} {k : ℕ} {c : β} (hk : l[k]? = some c) :
    ∃ pre post, l = pre ++ c :: post ∧ ∀ c', l.set k c' = pre ++ c' :: post := by
  obtain ⟨hlt, rfl⟩ := List.getElem?_eq_some_iff.mp hk
  refine ⟨l.take k, l.drop (k + 1), ?_, fun c' => ?_⟩
  · rw [← List.drop_eq_getElem_cons hlt, List.take_append_drop]
  · rw [List.set_eq_take_append_cons_drop, if_pos hlt]

theorem move_step (s : State π ι α τ) (e : Event π α) : P.Move s (P.step s e) := by
  cases e with
  | call a => exact .comes a
  | effect k p =>
    rw [step]
    split
    · exact .stays
    · split
      · exact .stays
      · obtain ⟨pre, post, hcalls, hset⟩ := exists_split ‹_›
        rw [hset]
        exact .takes hcalls (Bool.not_eq_true _ ▸ ‹_›)

variable {P} {s t : State π ι α τ} {i : ι} {p : π}

/-- A step makes calls or none; no argument changes. -/
theorem made_of_move (h : P.Move s t) : s.made.Sublist t.made := by
  cases h with
  | stays => exact .refl _
  | comes a =>
    rw [State.made, State.made, List.map_append]
    exact List.sublist_append_left _ _
  | takes hcalls _ =>
    rw [State.made, State.made, hcalls, List.map_append, List.map_append]
    exact .refl _

/-- **What a step makes of a cell it makes of the calls past its part.** -/
theorem past_of_move (h : P.Move s t) (i : ι) :
    (t.cells i = s.cells i ∧ t.past (P.part i) = s.past (P.part i)) ∨
      ∃ a, t.cells i = P.update i a (s.cells i) ∧
        (t.past (P.part i)).Perm (a :: s.past (P.part i)) := by
  cases h with
  | stays => exact .inl ⟨rfl, rfl⟩
  | comes a => exact .inl ⟨rfl, by simp [State.past]⟩
  | @takes pre post c p hcalls hdone =>
    by_cases hp : P.part i = p
    · refine .inr ⟨c.argument, if_pos hp, ?_⟩
      simp only [State.past, hcalls, hp, hdone, List.filter_append, List.filter_cons,
        Function.update_self, if_true, List.map_append, List.map_cons, Bool.false_eq_true, if_false]
      exact List.perm_middle
    · refine .inl ⟨if_neg hp, ?_⟩
      simp only [State.past, hcalls, List.filter_append, List.filter_cons,
        Function.update_of_ne hp, List.map_append]
      split <;> rfl

/-! ## Runs -/

variable {init : ι → τ} {m : State π ι α τ} {as : List α}

/-- Each cell holds the updates of the calls past its part. -/
def Holds (P : Procedure π ι α τ) (init : ι → τ) (s : State π ι α τ) : Prop :=
  ∀ i, s.cells i = P.fold i (s.past (P.part i)) (init i)

theorem holds_of_move (h : P.Move s t) (hs : P.Holds init s) : P.Holds init t := by
  intro i
  rcases past_of_move h i with ⟨hcell, hpast⟩ | ⟨a, hcell, hpast⟩
  · rw [hcell, hpast, hs i]
  · rw [hcell, P.fold_perm hpast, hs i]
    rfl

/-- **A cell holds the updates of the calls past its part.** -/
theorem cell_of_leads (hs : P.Holds init s) (h : Leads P.step s t) : P.Holds init t := by
  obtain ⟨es, rfl⟩ := h
  exact exec_of_forall (fun s e hs => holds_of_move (P.move_step s e) hs) hs es

/-- **Once all parts are done, each cell holds what the calls make one after the other**, in
whatever order. -/
theorem settled_of_leads (hs : P.Holds init s) (h : Leads P.step s t) {parts : List π}
    (hi : P.part i ∈ parts) (hall : ∀ c ∈ t.calls, ∀ p ∈ parts, c.done p = true)
    (has : as.Perm t.made) : t.cells i = P.fold i as (init i) := by
  rw [cell_of_leads hs h i, P.fold_perm has, State.past, List.filter_eq_self.mpr, State.made]
  exact fun c hc => hall c hc _ hi

theorem made_of_leads (h : Leads P.step s t) : s.made.Sublist t.made := by
  obtain ⟨es, rfl⟩ := h
  exact exec_of_forall (I := fun t => s.made.Sublist t.made)
    (fun t e ht => ht.trans (made_of_move (P.move_step t e))) (.refl _) es

theorem past_of_leads (h : Leads P.step s t) (i : ι) :
    (s.past (P.part i)).Subperm (t.past (P.part i)) := by
  obtain ⟨es, rfl⟩ := h
  refine exec_of_forall (I := fun m : State π ι α τ => (s.past (P.part i)).Subperm
    (m.past (P.part i))) (fun t e ht => ht.trans ?_) (.refl _) es
  rcases past_of_move (P.move_step t e) i with ⟨-, hpast⟩ | ⟨a, -, hpast⟩
  · exact hpast ▸ .refl _
  · exact (List.sublist_cons_self _ _).subperm.trans hpast.symm.subperm

/-- **What a cell holds at any moment of a run** is made by calls between those that had returned
before it and those that are made by its end. -/
theorem between_of_leads (hs : P.Holds init s) {parts : List π} (hi : P.part i ∈ parts)
    (hm : Leads P.step s m) (ht : Leads P.step m t) :
    ∃ as : List α, (s.returned parts).Subperm as ∧ as.Subperm t.made ∧
      m.cells i = P.fold i as (init i) := by
  refine ⟨m.past (P.part i), ?_, ?_, cell_of_leads hs hm i⟩
  · exact (State.returned_sublist_past hi s).subperm.trans (past_of_leads hm i)
  · exact ((State.past_sublist_made _ _).trans (made_of_leads ht)).subperm

/-! ## Cells read at different moments -/

section Snapshot

variable [DecidableEq ι] {is : List ι} {home : α → ι} {found : ι → List α}

/-- From what was found in each cell, the calls that count there. -/
def gather (home : α → ι) (found : ι → List α) (is : List ι) : List α :=
  is.flatMap fun i => (found i).filter fun a => home a = i

theorem filter_gather (his : is.Nodup) {i : ι} (hi : i ∈ is) :
    ((gather home found is).filter fun a => home a = i) =
      (found i).filter fun a => home a = i := by
  induction is with
  | nil => cases hi
  | cons j is ih =>
    obtain ⟨hj, his⟩ := List.nodup_cons.mp his
    have hother : ∀ k, k ≠ i →
        (((found k).filter fun a => home a = k).filter fun a => home a = i) = [] := by
      intro k hki
      refine List.filter_eq_nil_iff.mpr fun a ha => ?_
      have hk := of_decide_eq_true (List.mem_filter.mp ha).2
      rw [decide_eq_true_iff, hk]
      exact hki
    rw [gather, List.flatMap_cons, List.filter_append]
    rcases List.mem_cons.mp hi with rfl | hi
    · rw [List.filter_filter, List.filter_flatMap, List.flatMap_eq_nil_iff.mpr, List.append_nil]
      · simp
      · exact fun k hk => hother k fun hki => hj (hki ▸ hk)
    · rw [hother j fun hji => hj (hji ▸ hi), List.nil_append]
      exact ih his hi

theorem count_gather [DecidableEq α] (his : is.Nodup) (hhome : ∀ a, home a ∈ is) (a : α) :
    (gather home found is).count a = (found (home a)).count a := by
  have hfilter : ∀ l : List α, (l.filter fun b => home b = home a).count a = l.count a :=
    fun l => List.count_filter (decide_eq_true rfl)
  rw [← hfilter, filter_gather his (hhome a), hfilter]

/-- **A reader who visits the cells at different moments finds what calls make of them**, calls
between those that had returned before and those that are made by the end, if each call counts in
one cell only. -/
theorem snapshot_of_leads (hs : P.Holds init s) {parts : List π} (his : is.Nodup)
    (hparts : ∀ i ∈ is, P.part i ∈ parts) (hhome : ∀ a, home a ∈ is)
    (halone : ∀ i ∈ is, ∀ a, home a ≠ i → ∀ t, P.update i a t = t) {read : ι → τ}
    (hread : ∀ i ∈ is, ∃ m, Leads P.step s m ∧ Leads P.step m t ∧ read i = m.cells i) :
    ∃ as : List α, (s.returned parts).Subperm as ∧ as.Subperm t.made ∧
      ∀ i ∈ is, read i = P.fold i as (init i) := by
  classical
  have hfound : ∀ i ∈ is, ∃ as : List α, (s.returned parts).Subperm as ∧
      as.Subperm t.made ∧ read i = P.fold i as (init i) := by
    intro i hi
    obtain ⟨m, hm, ht, hread⟩ := hread i hi
    rw [hread]
    exact between_of_leads hs (hparts i hi) hm ht
  choose! found hlow hhigh hfold using hfound
  refine ⟨gather home found is, ?_, ?_, fun i hi => ?_⟩
  · refine List.subperm_ext_iff.mpr fun a _ => ?_
    rw [count_gather his hhome]
    exact (hlow _ (hhome a)).count_le a
  · refine List.subperm_ext_iff.mpr fun a _ => ?_
    rw [count_gather his hhome]
    exact (hhigh _ (hhome a)).count_le a
  · rw [hfold i hi, ← fold_filter (halone i hi), ← fold_filter (halone i hi) (gather _ _ _),
      filter_gather his hi]

end Snapshot

end Procedure

end Parallel
