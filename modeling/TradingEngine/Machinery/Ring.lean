import Mathlib.Data.Fintype.Card
import Mathlib.Data.Nat.ModEq
import Mathlib.Logic.Function.Basic

/-!
# Machinery/Ring — a queue in a ring of slots

`n` slots are used in turn, from a head on: the queue is the list of what the next `count` slots
hold (`segment`).  Taking the slot at the head drops the first item (`segment_succ`), and writing
the slot behind the last appends one (`segment_push`), as long as a slot is left.

A pool of `n` objects keeps the free ones in such a ring (`FreeList`): what is taken at the head was
free, and what was not free can be put back, for which a slot is always left.
-/

namespace Ring

variable {α : Type*} {slots : ℕ → α} {n head count : ℕ}

/-- The slot behind another one. -/
def next (n i : ℕ) : ℕ := (i + 1) % n

/-- The slot behind another one, found by a comparison. -/
theorem next_eq_ite {i : ℕ} (h : i < n) : next n i = if i + 1 ≥ n then 0 else i + 1 := by
  rw [next]
  split
  · have hn : i + 1 = n := by omega
    rw [hn, Nat.mod_self]
  · exact Nat.mod_eq_of_lt (by omega)

theorem next_lt (hn : 0 < n) (i : ℕ) : next n i < n := Nat.mod_lt _ hn

/-- What `count` slots hold, from the head on. -/
def segment (slots : ℕ → α) (n head count : ℕ) : List α :=
  (List.range count).map fun i => slots ((head + i) % n)

@[simp] theorem segment_zero : segment slots n head 0 = [] := rfl

@[simp] theorem length_segment : (segment slots n head count).length = count := by simp [segment]

/-- **The slot at the head.** -/
theorem segment_succ :
    segment slots n head (count + 1) =
      slots (head % n) :: segment slots n (next n head) count := by
  have hnext : ∀ i, (next n head + i) % n = (head + (i + 1)) % n := by
    intro i
    rw [next, Nat.mod_add_mod, Nat.add_right_comm, Nat.add_assoc]
  simp only [segment, hnext, List.range_succ_eq_map, List.map_cons, List.map_map, Nat.add_zero]
  rfl

/-- **The slot behind the last one.** -/
theorem segment_concat :
    segment slots n head (count + 1) =
      segment slots n head count ++ [slots ((head + count) % n)] := by
  simp [segment, List.range_succ]

/-- Two slots less than a turn apart are different ones. -/
theorem slot_ne {i j : ℕ} (hij : i < j) (hjn : j < i + n) : i % n ≠ j % n := by
  intro h
  have hdvd : n ∣ j - i := (Nat.modEq_iff_dvd' hij.le).mp h
  have hle : n ≤ j - i := Nat.le_of_dvd (by omega) hdvd
  omega

/-- What is written behind the last slot is not seen by the slots in front. -/
theorem segment_update (h : count < n) (x : α) :
    segment (Function.update slots ((head + count) % n) x) n head count =
      segment slots n head count := by
  refine List.map_congr_left fun i hi => ?_
  have hi : i < count := List.mem_range.mp hi
  exact Function.update_of_ne (slot_ne (by omega) (by omega)) ..

/-- **An item is appended.** -/
theorem segment_push (h : count < n) (x : α) :
    segment (Function.update slots ((head + count) % n) x) n head (count + 1) =
      segment slots n head count ++ [x] := by
  rw [segment_concat, segment_update h, Function.update_self]

/-! ## The free objects of a pool -/

/-- The ring holds the free ones of `n` objects, each once. -/
structure FreeList {n : ℕ} (slots : ℕ → Fin n) (head tail count : ℕ) (free : Fin n → Prop) :
    Prop where
  head_lt : head < n
  tail_eq : tail = (head + count) % n
  nodup : (segment slots n head count).Nodup
  mem_iff : ∀ x, x ∈ segment slots n head count ↔ free x

namespace FreeList

variable {slots : ℕ → Fin n} {tail : ℕ} {free free' : Fin n → Prop} {x : Fin n}

theorem congr (h : FreeList slots head tail count free) (hfree : ∀ x, free x ↔ free' x) :
    FreeList slots head tail count free' :=
  { h with mem_iff := fun x => (h.mem_iff x).trans (hfree x) }

/-- All objects are free, in their order. -/
theorem full [NeZero n] : FreeList (fun i => Fin.ofNat n i) 0 0 n (fun _ => True) := by
  have hsegment : segment (fun i => Fin.ofNat n i) n 0 n = List.finRange n := by
    refine List.ext_getElem (by simp) fun i _ hi => ?_
    have hi : i < n := by simpa using hi
    ext
    simp [segment, Fin.ofNat, Nat.mod_eq_of_lt hi]
  refine ⟨Nat.pos_of_ne_zero (NeZero.ne n), by simp, ?_, fun x => ?_⟩
  · rw [hsegment]
    exact List.nodup_finRange n
  · rw [hsegment]
    exact iff_of_true (List.mem_finRange x) trivial

/-- The free objects are the one at the head and those behind it. -/
theorem segment_eq (h : FreeList slots head tail count free) (hne : count ≠ 0) :
    segment slots n head count = slots head :: segment slots n (next n head) (count - 1) := by
  obtain ⟨k, rfl⟩ := Nat.exists_eq_succ_of_ne_zero hne
  rw [segment_succ, Nat.mod_eq_of_lt h.head_lt]
  rfl

/-- **What stands at the head is free.** -/
theorem front_free (h : FreeList slots head tail count free) (hne : count ≠ 0) :
    free (slots head) := by
  rw [← h.mem_iff, h.segment_eq hne]
  exact List.mem_cons_self

/-- **The object at the head is taken.** -/
theorem pop (h : FreeList slots head tail count free) (hne : count ≠ 0) :
    FreeList slots (next n head) tail (count - 1) (fun x => free x ∧ x ≠ slots head) := by
  have hnodup := h.nodup
  rw [h.segment_eq hne, List.nodup_cons] at hnodup
  refine ⟨next_lt (Nat.zero_lt_of_lt h.head_lt) _, ?_, hnodup.2, fun x => ?_⟩
  · rw [h.tail_eq, next, Nat.mod_add_mod]
    congr 1
    omega
  · rw [← h.mem_iff, h.segment_eq hne, List.mem_cons]
    constructor
    · intro hx
      refine ⟨.inr hx, fun heq => ?_⟩
      rw [heq] at hx
      exact hnodup.1 hx
    · rintro ⟨heq | hx, hne⟩
      · exact absurd heq hne
      · exact hx

/-- An object that is not free leaves a slot. -/
theorem count_lt (h : FreeList slots head tail count free) (hx : ¬ free x) : count < n := by
  have hnotin : x ∉ segment slots n head count := fun hmem => hx ((h.mem_iff x).mp hmem)
  have hle := (List.nodup_cons.mpr ⟨hnotin, h.nodup⟩).length_le_card
  rwa [List.length_cons, length_segment, Fintype.card_fin] at hle

/-- **An object that is not free is put back.** -/
theorem push (h : FreeList slots head tail count free) (hx : ¬ free x) :
    FreeList (Function.update slots tail x) head (next n tail) (count + 1)
      (fun y => free y ∨ y = x) := by
  have hlt := h.count_lt hx
  have hsegment : segment (Function.update slots tail x) n head (count + 1) =
      segment slots n head count ++ [x] := by
    rw [h.tail_eq]
    exact segment_push hlt x
  refine ⟨h.head_lt, ?_, ?_, fun y => ?_⟩
  · rw [h.tail_eq, next, Nat.mod_add_mod, Nat.add_assoc]
  · rw [hsegment, ← List.concat_eq_append]
    exact h.nodup.concat fun hmem => hx ((h.mem_iff x).mp hmem)
  · rw [hsegment, List.mem_append, List.mem_singleton, h.mem_iff]

/-- The ring is empty when no object is free. -/
theorem count_eq_zero_iff (h : FreeList slots head tail count free) :
    count = 0 ↔ ∀ x, ¬ free x := by
  constructor
  · rintro rfl x hx
    exact absurd ((h.mem_iff x).mpr hx) List.not_mem_nil
  · intro hnone
    by_contra hne
    exact hnone _ (h.front_free hne)

end FreeList

end Ring
