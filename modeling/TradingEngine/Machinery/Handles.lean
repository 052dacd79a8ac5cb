import Mathlib.Data.List.Basic

/-!
# Machinery/Handles — how many handles refer to a resource

Handles stand in a list, and a handle refers to a resource or to nothing; its position in the list
is its name, so a handle that is gone stays as one that refers to nothing.  A handle is made at the
end of the list and changed in place.  `holders` counts those that refer to a resource: one balance
for each of the two says how copies, moves and drops change the count.
-/

namespace Handles

variable {ρ : Type*} [DecidableEq ρ] {handles : List (Option ρ)} {i j : ℕ} {old new : Option ρ}
  {r : ρ}

/-- The handles that refer to a resource. -/
def holders (handles : List (Option ρ)) (r : ρ) : ℕ := handles.count (some r)

/-- One for a handle that refers to the resource. -/
def weight (handle : Option ρ) (r : ρ) : ℕ := if handle = some r then 1 else 0

@[simp] theorem weight_none (r : ρ) : weight none r = 0 := rfl

@[simp] theorem weight_self (r : ρ) : weight (some r) r = 1 := if_pos rfl

theorem weight_of_ne {s : ρ} (h : s ≠ r) : weight (some s) r = 0 :=
  if_neg fun heq => h (Option.some.inj heq)

theorem weight_le_one (handle : Option ρ) (r : ρ) : weight handle r ≤ 1 := by
  rw [weight]
  split <;> omega

theorem weight_eq_one_iff {handle : Option ρ} : weight handle r = 1 ↔ handle = some r := by
  rw [weight]
  split
  case isTrue heq => simp [heq]
  case isFalse hne => simp [hne]

@[simp] theorem holders_nil (r : ρ) : holders [] r = 0 := rfl

/-- **A handle is made.** -/
theorem holders_concat (handles : List (Option ρ)) (new : Option ρ) (r : ρ) :
    holders (handles ++ [new]) r = holders handles r + weight new r := by
  rw [holders, List.count_append, List.count_singleton, holders, weight]
  simp [beq_iff_eq]

/-- **A handle is changed.** -/
theorem holders_set (h : handles[i]? = some old) (new : Option ρ) (r : ρ) :
    holders (handles.set i new) r + weight old r = holders handles r + weight new r := by
  induction handles generalizing i with
  | nil => cases h
  | cons handle handles ih =>
    have hcons : ∀ (x : Option ρ) (l : List (Option ρ)),
        holders (x :: l) r = holders l r + weight x r := by
      intro x l
      rw [holders, List.count_cons, holders, weight]
      simp [beq_iff_eq]
    cases i with
    | zero =>
      obtain rfl : handle = old := by simpa using h
      rw [List.set_cons_zero, hcons, hcons]
      omega
    | succ i =>
      rw [List.set_cons_succ, hcons, hcons]
      have hset := ih (by simpa using h)
      omega

/-- A handle that refers to a resource is counted. -/
theorem weight_le_holders (h : handles[i]? = some old) (r : ρ) :
    weight old r ≤ holders handles r := by
  have hset := holders_set h none r
  rw [weight_none] at hset
  omega

/-- Two handles that refer to a resource are both counted. -/
theorem weight_add_le_holders (hij : i ≠ j) (hi : handles[i]? = some old)
    (hj : handles[j]? = some new) (r : ρ) : weight old r + weight new r ≤ holders handles r := by
  have hset := holders_set hi none r
  have hle : weight new r ≤ holders (handles.set i none) r :=
    weight_le_holders (by rw [List.getElem?_set_ne hij, hj]) r
  rw [weight_none] at hset
  omega

/-- What a handle refers to; nothing, if there is none at that place. -/
def target (handles : List (Option ρ)) (i : ℕ) : Option ρ := (handles[i]?).join

/-- A handle takes over what another one refers to. -/
def takeOver (handles : List (Option ρ)) (this other : ℕ) : List (Option ρ) :=
  (handles.set this (target handles other)).set other none

omit [DecidableEq ρ] in
theorem getElem?_of_target (h : target handles i = some r) : handles[i]? = some (some r) :=
  Option.join_eq_some_iff.mp h

omit [DecidableEq ρ] in
theorem getElem?_of_target_none (hi : i < handles.length) (h : target handles i = none) :
    handles[i]? = some none := by
  rw [target, List.getElem?_eq_getElem hi] at h
  rw [List.getElem?_eq_getElem hi]
  exact congrArg some h

/-- **A move keeps the count.** -/
theorem holders_takeOver (hij : i ≠ j) (hi : handles[i]? = some none) (r : ρ) :
    holders (takeOver handles i j) r = holders handles r := by
  have hfirst := holders_set hi (target handles j) r
  rw [weight_none] at hfirst
  rw [takeOver]
  rcases Nat.lt_or_ge j handles.length with hj | hj
  · have hat : (handles.set i (target handles j))[j]? = some (target handles j) := by
      rw [List.getElem?_set_ne hij, target, List.getElem?_eq_getElem hj]
      rfl
    have hsecond := holders_set hat none r
    rw [weight_none] at hsecond
    omega
  · have hnone : target handles j = none := by rw [target, List.getElem?_eq_none hj]; rfl
    have hlength : (handles.set i (target handles j)).length ≤ j := by rwa [List.length_set]
    rw [hnone, weight_none] at hfirst
    rw [List.set_eq_of_length_le hlength, hnone]
    omega

/-- Nothing refers to a resource that no handle refers to. -/
theorem holders_eq_zero_iff : holders handles r = 0 ↔ some r ∉ handles := List.count_eq_zero

end Handles
