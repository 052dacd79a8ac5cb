import Mathlib.Data.List.Basic

/-!
# Machinery/Fields — values under their keys

A field is changed where it is, or is new behind the others.
-/

namespace Fields

variable {κ β γ : Type*} {fields : List (κ × β)} {key k : κ} {init : β} {f : β → β}

section Lookup

variable [BEq κ] [LawfulBEq κ]

theorem lookup_eq_none (h : ∀ field ∈ fields, field.1 ≠ key) : fields.lookup key = none :=
  List.lookup_eq_none_iff.mpr fun field hfield => bne_iff_ne.mpr (h field hfield).symm

theorem lookup_cons_of_ne {field : κ × β} (h : k ≠ field.1) :
    (field :: fields).lookup k = fields.lookup k := by
  rw [List.lookup_cons, beq_eq_false_iff_ne.mpr h]

end Lookup

variable [DecidableEq κ]

/-- The value under a key is changed, or made of the initial one. -/
def put (fields : List (κ × β)) (key : κ) (init : β) (f : β → β) : List (κ × β) :=
  if ∃ field ∈ fields, field.1 = key then
    fields.map fun field => if field.1 = key then (key, f field.2) else field
  else fields ++ [(key, f init)]

theorem put_ne_nil : put fields key init f ≠ [] := by
  rw [put]
  split_ifs with hthere
  · obtain ⟨field, hfield, -⟩ := hthere
    exact fun hnil => List.not_mem_nil (List.map_eq_nil_iff.mp hnil ▸ hfield)
  · exact List.append_ne_nil_of_right_ne_nil _ (List.cons_ne_nil _ _)

theorem keys_change : (fields.map fun field => if field.1 = key then (key, f field.2) else field).map
    (·.1) = fields.map (·.1) := by
  rw [List.map_map]
  refine List.map_congr_left fun field _ => ?_
  by_cases heq : field.1 = key
  · exact (congrArg Prod.fst (if_pos heq)).trans heq.symm
  · exact congrArg Prod.fst (if_neg heq)

theorem keys_put :
    k ∈ (put fields key init f).map (·.1) ↔ k ∈ fields.map (·.1) ∨ k = key := by
  rw [put]
  split_ifs with hthere
  · rw [keys_change]
    obtain ⟨field, hfield, hname⟩ := hthere
    exact ⟨.inl, fun h => h.elim id fun heq =>
      List.mem_map.mpr ⟨field, hfield, hname.trans heq.symm⟩⟩
  · rw [List.map_append, List.mem_append, List.map_singleton, List.mem_singleton]

/-- A change of all values goes past the change of one. -/
theorem map_put {g : β → γ} {init' : γ} {f' : γ → γ} (hinit : g init = init')
    (hf : ∀ x, g (f x) = f' (g x)) :
    (put fields key init f).map (Prod.map id g) =
      put (fields.map (Prod.map id g)) key init' f' := by
  have hthere : (∃ field ∈ fields.map (Prod.map id g), field.1 = key) ↔
      ∃ field ∈ fields, field.1 = key := by
    simp only [List.mem_map, exists_exists_and_eq_and, Prod.map_fst, id_eq]
  rw [put, put]
  simp only [hthere]
  split_ifs
  · rw [List.map_map, List.map_map]
    refine List.map_congr_left fun field _ => ?_
    by_cases hfield : field.1 = key
    · simp only [Function.comp_apply, if_pos hfield, Prod.map_fst, id_eq, Prod.map_apply, hf,
        Prod.map_snd]
    · simp only [Function.comp_apply, if_neg hfield, Prod.map_fst, id_eq]
  · rw [List.map_append, List.map_singleton, Prod.map_apply, hf, hinit]
    rfl

variable [BEq κ] [LawfulBEq κ]

theorem lookup_change_self :
    (fields.map fun field => if field.1 = key then (key, f field.2) else field).lookup key =
      (fields.lookup key).map f := by
  induction fields with
  | nil => rfl
  | cons field fields ih =>
    rw [List.map_cons]
    by_cases hfield : field.1 = key
    · obtain ⟨name, value⟩ := field
      subst hfield
      rw [if_pos rfl, List.lookup_cons_self, List.lookup_cons_self]
      rfl
    · rw [if_neg hfield, lookup_cons_of_ne (Ne.symm hfield), lookup_cons_of_ne (Ne.symm hfield), ih]

theorem lookup_change_of_ne (h : k ≠ key) :
    (fields.map fun field => if field.1 = key then (key, f field.2) else field).lookup k =
      fields.lookup k := by
  induction fields with
  | nil => rfl
  | cons field fields ih =>
    rw [List.map_cons, List.lookup_cons, List.lookup_cons, ih]
    by_cases hfield : field.1 = key
    · rw [if_pos hfield, hfield, beq_eq_false_iff_ne.mpr h]
    · rw [if_neg hfield]

/-- **The value under the key**, made of what was there. -/
theorem lookup_put_self :
    (put fields key init f).lookup key = some (f ((fields.lookup key).getD init)) := by
  rw [put]
  split_ifs with hthere
  · obtain ⟨value, hvalue⟩ : ∃ value, fields.lookup key = some value := by
      refine Option.ne_none_iff_exists'.mp fun hnone => ?_
      obtain ⟨field, hfield, hname⟩ := hthere
      exact bne_iff_ne.mp (List.lookup_eq_none_iff.mp hnone field hfield) hname.symm
    rw [lookup_change_self, hvalue]
    rfl
  · have hnone := lookup_eq_none fun field hfield hname => hthere ⟨field, hfield, hname⟩
    rw [List.lookup_append, hnone, Option.none_or, List.lookup_cons_self]
    rfl

/-- The other values stay. -/
theorem lookup_put_of_ne (h : k ≠ key) : (put fields key init f).lookup k = fields.lookup k := by
  rw [put]
  split_ifs
  · exact lookup_change_of_ne h
  · rw [List.lookup_append, lookup_cons_of_ne h]
    exact Option.or_none

end Fields
