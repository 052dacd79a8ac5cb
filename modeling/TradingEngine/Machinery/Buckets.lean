import Mathlib.Algebra.BigOperators.Group.Finset.Piecewise
import Mathlib.Data.List.TakeWhile

/-!
# Machinery/Buckets — a list kept in buckets

A list is spread over buckets by a key, each bucket in the order of the list.  Sums over the list
are sums over the buckets (`sum_bucket`).  A bucket that is sorted by age can be aged from the
front: popping as long as the test holds drops exactly what the test holds of
(`dropWhile_eq_filter`), and a coarser test pops the same exactly when it stops at the first item
that shall stay (`dropWhile_eq_dropWhile_iff`).
-/

namespace Buckets

variable {α κ M : Type*}

/-- The items of a key. -/
def bucket [DecidableEq κ] (key : α → κ) (k : κ) (l : List α) : List α :=
  l.filter fun x => key x = k

section Bucket

variable [DecidableEq κ] {key : α → κ} {k : κ} {l : List α} {x : α}

@[simp] theorem bucket_nil : bucket key k [] = [] := rfl

theorem mem_bucket : x ∈ bucket key k l ↔ x ∈ l ∧ key x = k := by simp [bucket]

/-- **An item goes behind the others of its key.** -/
theorem bucket_concat (l : List α) (x : α) :
    bucket key k (l ++ [x]) = if key x = k then bucket key k l ++ [x] else bucket key k l := by
  rw [bucket, List.filter_append, ← bucket]
  split
  · rename_i h
    simp [h]
  · rename_i h
    simp [h]

theorem bucket_filter (p : α → Bool) :
    bucket key k (l.filter p) = (bucket key k l).filter p := List.filter_comm ..

/-- **A sum over the list is the sum over its buckets.** -/
theorem sum_bucket [AddCommMonoid M] (f : α → M) {s : Finset κ} (h : ∀ x ∈ l, key x ∈ s) :
    ∑ k ∈ s, ((bucket key k l).map f).sum = (l.map f).sum := by
  induction l with
  | nil => simp
  | cons x l ih =>
    obtain ⟨hx, hl⟩ := List.forall_mem_cons.mp h
    have hcons : ∀ k, ((bucket key k (x :: l)).map f).sum =
        (if key x = k then f x else 0) + ((bucket key k l).map f).sum := fun k => by
      by_cases hk : key x = k <;> simp [bucket, hk]
    simp only [hcons, Finset.sum_add_distrib, ih hl, List.map_cons, List.sum_cons]
    rw [Finset.sum_ite_eq, if_pos hx]

end Bucket

/-! ## Ageing from the front -/

variable {p q : α → Bool} {l : List α}

/-- **Popping from the front of a sorted list** drops what the test holds of. -/
theorem dropWhile_eq_filter (h : l.Pairwise fun x y => p y = true → p x = true) :
    l.dropWhile p = l.filter fun x => !p x := by
  induction l with
  | nil => rfl
  | cons x l ih =>
    obtain ⟨hx, hl⟩ := List.pairwise_cons.mp h
    cases hpx : p x with
    | true => rw [List.dropWhile_cons_of_pos hpx, ih hl, List.filter_cons_of_neg (by simp [hpx])]
    | false =>
      have hall : ∀ y ∈ l, (!p y) = true := fun y hy => by
        by_contra hpy
        have hpx' := hx y hy (by simpa using hpy)
        rw [hpx] at hpx'
        cases hpx'
      rw [List.dropWhile_cons_of_neg (by simp [hpx]), List.filter_cons_of_pos (by simp [hpx]),
        List.filter_eq_self.mpr hall]

/-- **A coarser test pops the same** if it stops at the first item that shall stay. -/
theorem dropWhile_eq_dropWhile_iff (h : ∀ x ∈ l, p x = true → q x = true) :
    l.dropWhile q = l.dropWhile p ↔ ∀ x ∈ (l.dropWhile p).head?, q x = false := by
  induction l with
  | nil => simp
  | cons x l ih =>
    obtain ⟨hx, hl⟩ := List.forall_mem_cons.mp h
    cases hpx : p x with
    | true =>
      rw [List.dropWhile_cons_of_pos hpx, List.dropWhile_cons_of_pos (hx hpx)]
      exact ih hl
    | false =>
      rw [List.dropWhile_cons_of_neg (p := p) (by simp [hpx])]
      cases hqx : q x with
      | false => simp [hqx]
      | true =>
        rw [List.dropWhile_cons_of_pos hqx]
        refine iff_of_false (fun heq => ?_) (by simp [hqx])
        have hle := List.length_dropWhile_le (p := q) l
        rw [heq, List.length_cons] at hle
        omega

end Buckets
