import Mathlib.Data.List.Basic

/-!
# Machinery/Outcome — computations that can fail

A computation in `Except` is taken apart where it has a result (`bind_eq_ok`), and step by step
shown to fail in expected ways only (`FailsOnly`).  Both go through a loop over a list.
-/

universe u

namespace Except

variable {ε ι : Type*} {α β σ : Type u} {x : Except ε α} {f : α → Except ε β} {b : β} {allowed : ε → Prop}

theorem bind_eq_ok : (x >>= f) = .ok b ↔ ∃ a, x = .ok a ∧ f a = .ok b := by
  cases x with
  | error e => exact ⟨fun h => (by cases h), fun ⟨_, h, _⟩ => (by cases h)⟩
  | ok a => exact ⟨fun h => ⟨a, rfl, h⟩, fun ⟨_, hx, hf⟩ => (by cases hx; exact hf)⟩

/-- What a loop keeps as long as it does not fail. -/
theorem foldlM_rule {step : σ → ι → Except ε σ} {P : List ι → σ → Prop}
    (hstep : ∀ a as s s', P (a :: as) s → step s a = .ok s' → P as s') {as : List ι} {s s' : σ}
    (h : P as s) (hok : as.foldlM step s = .ok s') : P [] s' := by
  induction as generalizing s with
  | nil =>
    cases hok
    exact h
  | cons a as ih =>
    rw [List.foldlM_cons] at hok
    obtain ⟨t, hs, ht⟩ := bind_eq_ok.mp hok
    exact ih (hstep a as s t h hs) ht

/-- Where a computation fails, it is in a way that is allowed. -/
def FailsOnly (allowed : ε → Prop) (x : Except ε α) : Prop := ∀ e, x = .error e → allowed e

theorem FailsOnly.ok (a : α) : FailsOnly allowed (.ok a : Except ε α) := by rintro e ⟨⟩

theorem FailsOnly.error {e : ε} (h : allowed e) : FailsOnly allowed (.error e : Except ε α) := by
  rintro _ ⟨⟩
  exact h

theorem FailsOnly.bind (hx : FailsOnly allowed x)
    (hf : ∀ a, x = .ok a → FailsOnly allowed (f a)) : FailsOnly allowed (x >>= f) := by
  cases x with
  | error e =>
    rintro _ ⟨⟩
    exact hx e rfl
  | ok a => exact hf a rfl

/-- **A loop** fails as its steps do, where it keeps what they need. -/
theorem FailsOnly.foldlM {step : σ → ι → Except ε σ} {P : List ι → σ → Prop}
    (hstep : ∀ a as s, P (a :: as) s → FailsOnly allowed (step s a))
    (hkeep : ∀ a as s s', P (a :: as) s → step s a = .ok s' → P as s') {as : List ι} {s : σ}
    (h : P as s) : FailsOnly allowed (as.foldlM step s) := by
  induction as generalizing s with
  | nil => exact FailsOnly.ok s
  | cons a as ih =>
    rw [List.foldlM_cons]
    exact (hstep a as s h).bind fun t ht => ih (hkeep a as s t h ht)

end Except
