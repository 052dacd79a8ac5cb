import Mathlib.Data.List.Basic

/-!
# Machinery/Arrangement — what a sort may leave of a list

A sort by a strict weak order leaves any arrangement in which nothing comes before what precedes it;
of elements that are not comparable it may put either first.  So every element that nothing precedes
is the first one of some arrangement (`exists_arranged_cons`), and every one that precedes nothing
the last one (`exists_arranged_concat`).
-/

namespace Arrangement

variable {α : Type*} {lt : α → α → Prop} {l r : List α} {a b : α}

/-- Neither of two elements precedes the other. -/
def Incomparable (lt : α → α → Prop) (a b : α) : Prop := ¬ lt a b ∧ ¬ lt b a

/-- **A strict weak order** on the elements of a list. -/
structure StrictWeak (lt : α → α → Prop) (l : List α) : Prop where
  irrefl : ∀ a ∈ l, ¬ lt a a
  trans : ∀ a ∈ l, ∀ b ∈ l, ∀ c ∈ l, lt a b → lt b c → lt a c
  incomparable : ∀ a ∈ l, ∀ b ∈ l, ∀ c ∈ l,
    Incomparable lt a b → Incomparable lt b c → Incomparable lt a c

/-- Nothing stands behind what it precedes. -/
def Arranged (lt : α → α → Prop) (l : List α) : Prop := l.Pairwise fun a b => ¬ lt b a

/-- What a sort leaves of a list, if the order is one to sort by. -/
def Sorts (sort : List α → List α) (lt : α → α → Prop) (l : List α) : Prop :=
  StrictWeak lt l → (sort l).Perm l ∧ Arranged lt (sort l)

instance [DecidableRel lt] : Decidable (Arranged lt l) :=
  inferInstanceAs (Decidable (l.Pairwise _))

/-- **Incomparable elements are incomparable to the same ones** exactly if a third element is
comparable to one of any two that are comparable. -/
theorem strictWeak_iff (hirrefl : ∀ a, ¬ lt a a) (htrans : ∀ a b c, lt a b → lt b c → lt a c) :
    StrictWeak lt l ↔ ∀ a ∈ l, ∀ b ∈ l, ∀ c ∈ l, lt a c → lt a b ∨ lt b c := by
  constructor
  · intro h a ha b hb c hc hac
    by_contra hnone
    obtain ⟨hab, hbc⟩ := not_or.mp hnone
    have hba : ¬ lt b a := fun hba => hbc (htrans b a c hba hac)
    have hcb : ¬ lt c b := fun hcb => hab (htrans a c b hac hcb)
    exact (h.incomparable a ha b hb c hc ⟨hab, hba⟩ ⟨hbc, hcb⟩).1 hac
  · intro h
    refine ⟨fun a _ => hirrefl a, fun a _ b _ c _ => htrans a b c,
      fun a ha b hb c hc hab hbc => ⟨fun hac => ?_, fun hca => ?_⟩⟩
    · rcases h a ha b hb c hc hac with hlt | hlt
      · exact hab.1 hlt
      · exact hbc.1 hlt
    · rcases h c hc b hb a ha hca with hlt | hlt
      · exact hbc.2 hlt
      · exact hab.2 hlt

/-! ## The ends of an arrangement -/

/-- Nothing precedes the first element of an arrangement. -/
theorem Arranged.first (h : Arranged lt (a :: r)) (hirrefl : ∀ a, ¬ lt a a) :
    ∀ b ∈ a :: r, ¬ lt b a := by
  rintro b hb
  rcases List.mem_cons.mp hb with rfl | hrest
  · exact hirrefl b
  · exact (List.pairwise_cons.mp h).1 b hrest

/-- The last one precedes nothing. -/
theorem Arranged.last (h : Arranged lt (r ++ [b])) (hirrefl : ∀ a, ¬ lt a a) :
    ∀ a ∈ r ++ [b], ¬ lt b a := by
  rintro a ha
  rcases List.mem_append.mp ha with hfront | hlast
  · exact (List.pairwise_append.mp h).2.2 a hfront b (List.mem_singleton_self b)
  · rw [List.mem_singleton.mp hlast]
    exact hirrefl b

/-! ## Arrangements -/

/-- Nothing precedes some element. -/
theorem exists_first (hirrefl : ∀ a, ¬ lt a a) (htrans : ∀ a b c, lt a b → lt b c → lt a c)
    (hne : l ≠ []) : ∃ a ∈ l, ∀ b ∈ l, ¬ lt b a := by
  induction l with
  | nil => exact absurd rfl hne
  | cons a l ih =>
    rcases eq_or_ne l [] with rfl | hl
    · refine ⟨a, List.mem_cons_self, fun b hb => ?_⟩
      rw [List.mem_singleton.mp hb]
      exact hirrefl a
    · obtain ⟨m, hm, hfirst⟩ := ih hl
      by_cases ham : lt a m
      · refine ⟨a, List.mem_cons_self, fun b hb hba => ?_⟩
        rcases List.mem_cons.mp hb with rfl | hrest
        · exact hirrefl b hba
        · exact hfirst b hrest (htrans b a m hba ham)
      · refine ⟨m, List.mem_cons_of_mem a hm, fun b hb => ?_⟩
        rcases List.mem_cons.mp hb with rfl | hrest
        · exact ham
        · exact hfirst b hrest

/-- **A list can be arranged.** -/
theorem exists_arranged (hirrefl : ∀ a, ¬ lt a a) (htrans : ∀ a b c, lt a b → lt b c → lt a c)
    (l : List α) : ∃ r, r.Perm l ∧ Arranged lt r := by
  induction hn : l.length generalizing l with
  | zero => exact ⟨[], by rw [List.length_eq_zero_iff.mp hn], List.Pairwise.nil⟩
  | succ n ih =>
    have hne : l ≠ [] := by
      rintro rfl
      cases hn
    obtain ⟨a, ha, hfirst⟩ := exists_first hirrefl htrans hne
    obtain ⟨front, back, rfl⟩ := List.append_of_mem ha
    have hperm : (a :: (front ++ back)).Perm (front ++ a :: back) := List.perm_middle.symm
    have hlength : (front ++ back).length = n := by
      have hcons := hperm.length_eq
      rw [hn, List.length_cons] at hcons
      omega
    obtain ⟨r, hr, harranged⟩ := ih (front ++ back) hlength
    refine ⟨a :: r, (hr.cons a).trans hperm, List.pairwise_cons.mpr ⟨fun b hb => ?_, harranged⟩⟩
    exact hfirst b (hperm.mem_iff.mp (List.mem_cons_of_mem a (hr.mem_iff.mp hb)))

/-- **What nothing precedes may come first.** -/
theorem exists_arranged_cons (hirrefl : ∀ a, ¬ lt a a) (htrans : ∀ a b c, lt a b → lt b c → lt a c)
    (ha : a ∈ l) (hfirst : ∀ b ∈ l, ¬ lt b a) :
    ∃ r, (a :: r).Perm l ∧ Arranged lt (a :: r) := by
  obtain ⟨front, back, rfl⟩ := List.append_of_mem ha
  obtain ⟨r, hr, harranged⟩ := exists_arranged hirrefl htrans (front ++ back)
  have hperm : (a :: r).Perm (front ++ a :: back) := (hr.cons a).trans List.perm_middle.symm
  refine ⟨r, hperm, List.pairwise_cons.mpr ⟨fun b hb => ?_, harranged⟩⟩
  exact hfirst b (hperm.mem_iff.mp (List.mem_cons_of_mem a hb))

/-- **What precedes nothing may come last.** -/
theorem exists_arranged_concat (hirrefl : ∀ a, ¬ lt a a)
    (htrans : ∀ a b c, lt a b → lt b c → lt a c) (hb : b ∈ l) (hlast : ∀ a ∈ l, ¬ lt b a) :
    ∃ r, (r ++ [b]).Perm l ∧ Arranged lt (r ++ [b]) := by
  obtain ⟨front, back, rfl⟩ := List.append_of_mem hb
  obtain ⟨r, hr, harranged⟩ := exists_arranged hirrefl htrans (front ++ back)
  have hperm : (r ++ [b]).Perm (front ++ b :: back) :=
    (List.perm_append_singleton b r).trans ((hr.cons b).trans List.perm_middle.symm)
  refine ⟨r, hperm, List.pairwise_append.mpr ⟨harranged, List.pairwise_singleton _ b, ?_⟩⟩
  intro a ha c hc
  rw [List.mem_singleton.mp hc]
  exact hlast a (hperm.mem_iff.mp (List.mem_append_left [b] ha))

end Arrangement
