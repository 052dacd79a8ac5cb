import Mathlib.Data.List.Basic

/-!
# Machinery/TaskQueue — chains of tasks in one queue

A chain is started by a task at the end of the queue; a task that runs may post the next one of its
chain, again at the end.  Each task of a chain has a *place*: the number of its chain, in the order
the chains were started, and its stage.  In such a queue no chain overtakes an earlier one
(`Ordered.stage_le`), and a chain at the front is at a lower stage than every earlier chain
(`Ordered.stage_lt`).
-/

namespace TaskQueue

variable {α : Type*}

/-- A place in front of another: the earlier chain is at least as far, the later one is behind. -/
def InStep (p q : ℕ × ℕ) : Prop := (p.1 < q.1 ∧ q.2 ≤ p.2) ∨ (q.1 < p.1 ∧ p.2 < q.2)

/-- The tasks of a queue that have a place are in step. -/
def Ordered (place : α → Option (ℕ × ℕ)) (queue : List α) : Prop :=
  queue.Pairwise fun a b => ∀ p ∈ place a, ∀ q ∈ place b, InStep p q

variable {place : α → Option (ℕ × ℕ)} {queue : List α} {a b : α} {p q : ℕ × ℕ}

theorem ordered_nil : Ordered place [] := List.Pairwise.nil

theorem Ordered.tail (h : Ordered place (a :: queue)) : Ordered place queue := h.of_cons

theorem ordered_concat :
    Ordered place (queue ++ [a]) ↔
      Ordered place queue ∧ ∀ b ∈ queue, ∀ p ∈ place b, ∀ q ∈ place a, InStep p q := by
  rw [Ordered, List.pairwise_append]
  simp [Ordered]

/-- A task without a place may be posted at any time. -/
theorem Ordered.post (h : Ordered place queue) (ha : place a = none) :
    Ordered place (queue ++ [a]) :=
  ordered_concat.mpr ⟨h, fun _ _ _ _ q hq => by rw [ha] at hq; cases hq⟩

/-- **A new chain** is started at the end. -/
theorem Ordered.start (h : Ordered place queue) {n : ℕ}
    (hnew : ∀ b ∈ queue, ∀ p ∈ place b, p.1 < n) (ha : place a = some (n, 0)) :
    Ordered place (queue ++ [a]) := by
  refine ordered_concat.mpr ⟨h, fun b hb p hp q hq => ?_⟩
  rw [ha] at hq
  cases hq
  exact .inl ⟨hnew b hb p hp, Nat.zero_le _⟩

/-- **The next task of a chain** is posted by the one at the front. -/
theorem Ordered.advance (h : Ordered place (a :: queue)) {n k : ℕ} (ha : place a = some (n, k))
    (hb : place b = some (n, k + 1)) : Ordered place (queue ++ [b]) := by
  refine ordered_concat.mpr ⟨h.tail, fun c hc p hp q hq => ?_⟩
  rw [hb] at hq
  cases hq
  rcases List.rel_of_pairwise_cons h hc (n, k) ha p hp with ⟨hlt, hle⟩ | ⟨hlt, hle⟩
  · exact .inr ⟨hlt, Nat.lt_succ_of_le hle⟩
  · exact .inl ⟨hlt, hle⟩

/-- The chains in a queue are different ones. -/
theorem Ordered.ne_front (h : Ordered place (a :: queue)) (hb : b ∈ queue) (hp : place a = some p)
    (hq : place b = some q) : q.1 ≠ p.1 := by
  rcases List.rel_of_pairwise_cons h hb p hp q hq with ⟨hlt, -⟩ | ⟨hlt, -⟩
  · exact Nat.ne_of_gt hlt
  · exact Nat.ne_of_lt hlt

/-- **The chain at the front is behind every earlier one.** -/
theorem Ordered.stage_lt (h : Ordered place (a :: queue)) (hb : b ∈ queue) (hp : place a = some p)
    (hq : place b = some q) (hearlier : q.1 < p.1) : p.2 < q.2 := by
  rcases List.rel_of_pairwise_cons h hb p hp q hq with ⟨hlt, -⟩ | ⟨-, hlt⟩
  · omega
  · exact hlt

/-- **No chain overtakes an earlier one.** -/
theorem Ordered.stage_le (h : Ordered place queue) (ha : a ∈ queue) (hb : b ∈ queue)
    (hp : place a = some p) (hq : place b = some q) (hearlier : q.1 < p.1) : p.2 ≤ q.2 := by
  induction queue with
  | nil => exact absurd ha List.not_mem_nil
  | cons c queue ih =>
    rcases List.mem_cons.mp ha with rfl | ha'
    · rcases List.mem_cons.mp hb with rfl | hb'
      · rw [hp, Option.some_inj] at hq
        exact absurd hearlier (hq ▸ Nat.lt_irrefl _)
      · exact Nat.le_of_lt (h.stage_lt hb' hp hq hearlier)
    · rcases List.mem_cons.mp hb with rfl | hb'
      · rcases List.rel_of_pairwise_cons h ha' q hq p hp with ⟨-, hle⟩ | ⟨hlt, -⟩
        · exact hle
        · omega
      · exact ih h.tail ha' hb'

end TaskQueue
