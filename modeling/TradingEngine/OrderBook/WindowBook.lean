import Mathlib.Data.Finsupp.Basic
import TradingEngine.OrderBook.SideInvariant

/-!
# OrderBook/WindowBook — what a book is for: a price map seen through a moving window

A `WindowBook` is a base price and, for each side, a finite map from prices to nonzero quantities.
Writes outside the window around the base are lost; a rebase moves the base to the best bid and
erases exactly the levels outside the new window.  Prices and quantities are arbitrary: the shape of
the window and the ends near which it moves are parameters.
-/

namespace TradingEngine

/-- The shape of a moving window: which prices a base sees, and which of them are near an end. -/
structure WindowShape (P : Type*) where
  inWindow : P → P → Prop
  nearEnd : P → P → Prop

/-- A book as a price map: a base and two finite maps from prices to quantities. -/
structure WindowBook (P Q : Type*) [Zero Q] where
  base : P
  levels : OrderBookSideType → P →₀ Q

namespace WindowBook

variable {P Q : Type*} [LinearOrder P] [Zero Q] (w : WindowShape P) (a : WindowBook P Q)

open Classical in
/-- Set one price of one side, if it lies in the window; zero erases it. -/
noncomputable def write (t : OrderBookSideType) (p : P) (q : Q) : WindowBook P Q :=
  if q = 0 then { a with levels := Function.update a.levels t ((a.levels t).erase p) }
  else if w.inWindow a.base p then
    { a with levels := Function.update a.levels t ((a.levels t).update p q) }
  else a

/-- Erase one price of one side. -/
noncomputable def erase (t : OrderBookSideType) (p : P) : WindowBook P Q := a.write w t p 0

/-- Erase everything. -/
def clear : WindowBook P Q := { a with levels := fun _ => 0 }

/-- `p` is the best price of side `t`. -/
def Best (t : OrderBookSideType) (p : P) : Prop := IsBest t {p | a.levels t p ≠ 0} p

/-- Both sides have a best price, and one of the two is near an end of the window. -/
def Triggered : Prop :=
  ∃ pb pa, a.Best .bid pb ∧ a.Best .ask pa ∧ (w.nearEnd a.base pb ∨ w.nearEnd a.base pa)

open Classical in
/-- Move the base to `p` and erase the levels outside the new window. -/
noncomputable def moveTo (p : P) : WindowBook P Q where
  base := p
  levels := fun t => (a.levels t).filter (w.inWindow p)

open Classical in
/-- Rebase on the best bid, if triggered. -/
noncomputable def rebase : WindowBook P Q :=
  if h : a.Triggered w then a.moveTo w h.choose else a

/-! ## Reading a book back -/

variable {w a}

omit [LinearOrder P] in
@[simp] theorem write_base (t : OrderBookSideType) (p : P) (q : Q) :
    (a.write w t p q).base = a.base := by
  rw [write]
  split_ifs <;> rfl

omit [LinearOrder P] in
theorem write_apply_self {t : OrderBookSideType} {p : P} (hin : w.inWindow a.base p) (q : Q) :
    (a.write w t p q).levels t p = q := by
  classical
  rw [write]
  split_ifs with hq
  · simp [hq]
  · simp

omit [LinearOrder P] in
theorem write_apply_of_ne {t t' : OrderBookSideType} {p p' : P} (h : ¬ (t' = t ∧ p' = p)) (q : Q) :
    (a.write w t p q).levels t' p' = a.levels t' p' := by
  classical
  rw [write]
  by_cases ht : t' = t
  · subst ht
    have hp : p' ≠ p := fun hp => h ⟨rfl, hp⟩
    split_ifs
    · simp [Finsupp.erase_ne hp]
    · simp [hp]
    · rfl
  · split_ifs
    · simp [ht]
    · simp [ht]
    · rfl

omit [LinearOrder P] in
/-- A write outside the window is lost, wherever no level lies outside the window. -/
theorem write_apply_of_not_inWindow {t : OrderBookSideType} {p : P} (hout : ¬ w.inWindow a.base p)
    (hp : a.levels t p = 0) (q : Q) (t' : OrderBookSideType) (p' : P) :
    (a.write w t p q).levels t' p' = a.levels t' p' := by
  classical
  by_cases hne : t' = t ∧ p' = p
  · obtain ⟨rfl, rfl⟩ := hne
    rw [write]
    split_ifs
    · simp [hp]
    · rfl
  · exact write_apply_of_ne hne q

theorem Best.unique {t : OrderBookSideType} {p p' : P} (h : a.Best t p) (h' : a.Best t p') :
    p = p' :=
  IsBest.unique h h'

/-- **A triggered rebase moves to the best bid.** -/
theorem rebase_of_triggered (h : a.Triggered w) {p : P} (hp : a.Best .bid p) :
    a.rebase w = a.moveTo w p := by
  rw [rebase, dif_pos h]
  obtain ⟨pa, hb, _⟩ := h.choose_spec
  rw [Best.unique hb hp]

theorem rebase_of_not_triggered (h : ¬ a.Triggered w) : a.rebase w = a := by rw [rebase, dif_neg h]

omit [LinearOrder P] in
theorem moveTo_apply_of_inWindow {p p' : P} (h : w.inWindow p p') (t : OrderBookSideType) :
    (a.moveTo w p).levels t p' = a.levels t p' := by
  classical
  exact Finsupp.filter_apply_pos _ _ h

omit [LinearOrder P] in
theorem moveTo_apply_of_not_inWindow {p p' : P} (h : ¬ w.inWindow p p') (t : OrderBookSideType) :
    (a.moveTo w p).levels t p' = 0 := by
  classical
  exact Finsupp.filter_apply_neg _ _ h

/-- **A rebase keeps every level that the new window sees.** -/
theorem rebase_apply_of_inWindow {t : OrderBookSideType} {p : P}
    (h : w.inWindow (a.rebase w).base p) : (a.rebase w).levels t p = a.levels t p := by
  by_cases htrig : a.Triggered w
  · obtain ⟨pb, _, hb, _⟩ := id htrig
    rw [rebase_of_triggered htrig hb] at h ⊢
    exact moveTo_apply_of_inWindow h t
  · rw [rebase_of_not_triggered htrig]

end WindowBook

end TradingEngine
