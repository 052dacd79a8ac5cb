import Mathlib.Algebra.BigOperators.Fin
import TradingEngine.Json.Store
import TradingEngine.Machinery.Handles

/-!
# Json/Counting — how many `Json` hold an object

`holders` counts the handles and the slots that hold an item; what a call has taken out of a slot
and not put anywhere yet is counted with them.  `Owned` says that the reference counts are these
numbers, that a value has one holder, and that the pools have what nobody holds.
-/

namespace TradingEngine

open JsonObjectCell

variable {n m : ℕ}

namespace JsonObjectCell

variable {cell : JsonObjectCell n m} {key : List UInt8} {old p : JsonPointer n m}

/-- A field that is set holds something else. -/
theorem count_setField {fs : List (List UInt8 × JsonPointer n m)} (h : fs.lookup key = some old)
    (p q : JsonPointer n m) : ((setField key p fs).map (·.2)).count q + [old].count q =
      (fs.map (·.2)).count q + [p].count q := by
  induction fs with
  | nil => cases h
  | cons f fs ih =>
    rw [List.lookup_cons] at h
    rw [setField]
    by_cases hkey : f.1 = key
    · have hbeq : (key == f.1) = true := by simp [hkey]
      rw [hbeq] at h
      cases h
      rw [if_pos hkey]
      simp only [List.map_cons, List.count_cons, List.count_nil]
      omega
    · have hbeq : (key == f.1) = false := by simpa using fun h => hkey h.symm
      rw [hbeq] at h
      have ih := ih h
      rw [if_neg hkey]
      simp only [List.map_cons, List.count_cons] at ih ⊢
      omega

/-- A field that is erased is held no more. -/
theorem count_eraseField {fs : List (List UInt8 × JsonPointer n m)}
    (h : fs.lookup key = some old) (q : JsonPointer n m) :
    ((eraseField key fs).map (·.2)).count q + [old].count q = (fs.map (·.2)).count q := by
  induction fs with
  | nil => cases h
  | cons f fs ih =>
    rw [List.lookup_cons] at h
    rw [eraseField]
    by_cases hkey : f.1 = key
    · have hbeq : (key == f.1) = true := by simp [hkey]
      rw [hbeq] at h
      cases h
      rw [if_pos hkey]
      simp only [List.map_cons, List.count_cons, List.count_nil, Nat.zero_add]
    · have hbeq : (key == f.1) = false := by simpa using fun h => hkey h.symm
      rw [hbeq] at h
      have ih := ih h
      rw [if_neg hkey]
      simp only [List.map_cons, List.count_cons] at ih ⊢
      omega

theorem eraseField_of_lookup_none {fs : List (List UInt8 × JsonPointer n m)}
    (h : fs.lookup key = none) : eraseField key fs = fs := by
  induction fs with
  | nil => rfl
  | cons f fs ih =>
    rw [List.lookup_cons] at h
    rw [eraseField]
    by_cases hkey : f.1 = key
    · have hbeq : (key == f.1) = true := by simp [hkey]
      rw [hbeq] at h
      cases h
    · have hbeq : (key == f.1) = false := by simpa using fun h => hkey h.symm
      rw [hbeq] at h
      rw [if_neg hkey, ih h]

theorem count_pointers (cell : JsonObjectCell n m) (q : JsonPointer n m) :
    cell.pointers.count q = (cell.object.map (·.2)).count q + cell.array.count q :=
  List.count_append

end JsonObjectCell

namespace JsonStore

variable {s s' : JsonStore n m} {ts ts' : List (JsonPointer n m)} {place : JsonPlace n}
  {old p q : JsonPointer n m} {o : Fin n} {v : Fin m}

/-! ## Holders -/

/-- The handles and the slots that hold an item. -/
def holders (s : JsonStore n m) (p : JsonPointer n m) : ℕ :=
  Handles.holders s.handles p + ∑ o, (s.objects o).pointers.count p

theorem weight_eq_count (p q : JsonPointer n m) : Handles.weight (some p) q = [p].count q := by
  rw [Handles.weight, List.count_singleton]
  simp [beq_iff_eq]

/-- **A container is changed.** -/
theorem holders_updateObject (s : JsonStore n m) (o : Fin n)
    (f : JsonObjectCell n m → JsonObjectCell n m) (q : JsonPointer n m) :
    (s.updateObject o f).holders q + (s.objects o).pointers.count q =
      s.holders q + (f (s.objects o)).pointers.count q := by
  have hsum : ∑ x ∈ Finset.univ.erase o, ((s.updateObject o f).objects x).pointers.count q =
      ∑ x ∈ Finset.univ.erase o, (s.objects x).pointers.count q := by
    refine Finset.sum_congr rfl fun x hx => ?_
    rw [updateObject_of_ne (Finset.ne_of_mem_erase hx)]
  have hnew := Finset.add_sum_erase Finset.univ
    (fun x => ((s.updateObject o f).objects x).pointers.count q) (Finset.mem_univ o)
  have hold := Finset.add_sum_erase Finset.univ
    (fun x => (s.objects x).pointers.count q) (Finset.mem_univ o)
  simp only [updateObject_self] at hnew
  rw [holders, holders, updateObject_handles]
  omega

/-- An element that is set holds something else. -/
theorem count_set_element {i : ℕ} (h : s.pointerAt (.element o i) = some old)
    (p q : JsonPointer n m) : ((s.objects o).array.set i p).count q + [old].count q =
      (s.objects o).array.count q + [p].count q := by
  obtain ⟨hi, hget⟩ := List.getElem?_eq_some_iff.mp h
  have hset := List.count_set (a := p) (b := q) hi
  have hpos : (if (s.objects o).array[i] == q then 1 else 0) ≤ (s.objects o).array.count q := by
    split_ifs with heq
    · exact List.one_le_count_iff.mpr (beq_iff_eq.mp heq ▸ List.getElem_mem hi)
    · exact Nat.zero_le _
  rw [hget] at hset hpos
  simp only [List.count_singleton]
  omega

/-- **A place is made to hold something else.** -/
theorem holders_assign (h : s.pointerAt place = some old) (p q : JsonPointer n m) :
    (s.assign p place).holders q + [old].count q = s.holders q + [p].count q := by
  cases place with
  | handle i =>
    have hset := Handles.holders_set (Option.join_eq_some_iff.mp h) (some p) q
    rw [weight_eq_count, weight_eq_count] at hset
    simp only [assign, holders]
    omega
  | field o key =>
    have hupdate := s.holders_updateObject o
      (fun cell => { cell with object := setField key p cell.object }) q
    have hfield := count_setField h p q
    simp only [count_pointers] at hupdate
    rw [assign]
    omega
  | element o i =>
    have hupdate := s.holders_updateObject o
      (fun cell => { cell with array := cell.array.set i p }) q
    have helement := count_set_element h p q
    simp only [count_pointers] at hupdate
    rw [assign]
    omega

theorem count_singleton_of_ne (h : p ≠ q) : [p].count q = 0 :=
  List.count_eq_zero.mpr fun hmem => h (List.mem_singleton.mp hmem).symm

theorem count_singleton_self (p : JsonPointer n m) : [p].count p = 1 := by simp

/-- What a place holds is held. -/
theorem holders_pos (h : s.pointerAt place = some p) (hne : p ≠ .null) : 0 < s.holders p := by
  have hassign := holders_assign h .null p
  rw [count_singleton_self, count_singleton_of_ne hne.symm] at hassign
  omega

/-! ## The invariant -/

/-- **The counts are right**, with what is held by no handle and no slot for the moment. -/
structure Owned (s : JsonStore n m) (ts : List (JsonPointer n m)) : Prop where
  count : ∀ o, (s.objects o).referenceCount.toNat =
    s.holders (.object o) + ts.count (.object o)
  available : ∀ o, o ∈ s.availableObjects ↔ (s.objects o).referenceCount = 0
  nodup : s.availableObjects.Nodup
  cleared : ∀ o ∈ s.availableObjects, s.objects o = cleared
  once : ∀ v, s.holders (.value v) + ts.count (.value v) = if v ∈ s.availableValues then 0 else 1
  nodupValues : s.availableValues.Nodup

/-- **Items change hands**, and none is given up. -/
theorem Owned.recount (h : Owned s ts)
    (hcount : ∀ o, (s'.objects o).referenceCount = (s.objects o).referenceCount)
    (hobjects : s'.availableObjects = s.availableObjects)
    (hvalues : s'.availableValues = s.availableValues)
    (hcleared : ∀ o ∈ s.availableObjects, s'.objects o = s.objects o)
    (hholders : ∀ q, q ≠ .null → s'.holders q + ts'.count q = s.holders q + ts.count q) :
    Owned s' ts' where
  count o := by rw [hcount, h.count, hholders _ (by rintro ⟨⟩)]
  available o := by rw [hobjects, hcount, h.available]
  nodup := hobjects ▸ h.nodup
  cleared o ho := by
    rw [hobjects] at ho
    rw [hcleared o ho, h.cleared o ho]
  once v := by rw [hvalues, ← h.once, hholders _ (by rintro ⟨⟩)]
  nodupValues := hvalues ▸ h.nodupValues

/-- What is held is in no pool. -/
theorem Owned.not_mem_of_pos (h : Owned s ts)
    (hpos : 0 < s.holders (.object o) + ts.count (.object o)) : o ∉ s.availableObjects := by
  rw [h.available]
  intro hzero
  have hcount := h.count o
  rw [hzero] at hcount
  have hnat : (0 : UInt32).toNat = 0 := rfl
  omega

theorem Owned.not_mem_values_of_pos (h : Owned s ts)
    (hpos : 0 < s.holders (.value v) + ts.count (.value v)) : v ∉ s.availableValues := by
  intro hmem
  have honce := h.once v
  rw [if_pos hmem] at honce
  omega

/-- A container with a slot is in no pool. -/
theorem Owned.not_mem_of_slot (h : Owned s ts) (hslot : (s.objects o).pointers ≠ []) :
    o ∉ s.availableObjects := by
  intro hmem
  rw [h.cleared o hmem] at hslot
  exact hslot rfl

/-! ## Places -/

/-- Null is held by nobody. -/
theorem Owned.cons_null : Owned s (.null :: ts) ↔ Owned s ts := by
  constructor <;> intro h <;>
    refine h.recount (fun _ => rfl) rfl rfl (fun _ _ => rfl) fun q hq => ?_ <;>
    rw [List.count_cons_of_ne hq.symm]

theorem Owned.perm (h : Owned s ts) (hts : ts.Perm ts') : Owned s ts' :=
  h.recount (fun _ => rfl) rfl rfl (fun _ _ => rfl) fun q _ => by rw [hts.count_eq]

theorem Owned.newHandle (h : Owned s (p :: ts)) : Owned (s.newHandle p) ts := by
  refine h.recount (fun _ => rfl) rfl rfl (fun _ _ => rfl) fun q _ => ?_
  have hconcat := Handles.holders_concat s.handles (some p) q
  rw [weight_eq_count] at hconcat
  simp only [JsonStore.newHandle, holders, List.count_cons, List.count_nil] at hconcat ⊢
  omega

theorem Owned.dropHandle {i : ℕ} (h : Owned s ts) (hat : s.pointerAt (.handle i) = some p) :
    Owned { s with handles := s.handles.set i none } (p :: ts) := by
  refine h.recount (fun _ => rfl) rfl rfl (fun _ _ => rfl) fun q _ => ?_
  have hset := Handles.holders_set (Option.join_eq_some_iff.mp hat) none q
  rw [weight_eq_count, Handles.weight_none] at hset
  simp only [holders, List.count_cons, List.count_nil] at hset ⊢
  omega

/-- **A container is changed**, and keeps what it holds or gives it up. -/
theorem Owned.updateObject {f : JsonObjectCell n m → JsonObjectCell n m} (h : Owned s ts)
    (ho : o ∉ s.availableObjects)
    (hcount : (f (s.objects o)).referenceCount = (s.objects o).referenceCount)
    (hpointers : ∀ q, q ≠ .null → (f (s.objects o)).pointers.count q + ts'.count q =
      (s.objects o).pointers.count q + ts.count q) : Owned (s.updateObject o f) ts' := by
  refine h.recount (fun o' => ?_) rfl rfl (fun o' ho' => ?_) fun q hq => ?_
  · rcases eq_or_ne o' o with rfl | hne
    · rw [updateObject_self, hcount]
    · rw [updateObject_of_ne hne]
  · exact updateObject_of_ne fun heq => ho (heq ▸ ho')
  · have hupdate := s.holders_updateObject o f q
    have hq := hpointers q hq
    omega

/-- A value is changed where it is. -/
theorem Owned.updateValue {g : JsonValueCell → JsonValueCell} (h : Owned s ts) (v : Fin m) :
    Owned (s.updateValue v g) ts :=
  h.recount (fun _ => rfl) rfl rfl (fun _ _ => rfl) fun _ _ => rfl

/-! ## Releases -/

theorem Owned.releaseValue (h : Owned s (.value v :: ts)) : Owned (s.releaseValue v) ts := by
  have hnot : v ∉ s.availableValues := h.not_mem_values_of_pos (by
    simp only [List.count_cons_self]
    omega)
  have honce := h.once v
  rw [if_neg hnot, List.count_cons_self] at honce
  refine ⟨fun o => ?_, h.available, h.nodup, h.cleared, fun w => ?_, ?_⟩
  · have hcount := h.count o
    rw [List.count_cons_of_ne (by rintro ⟨⟩)] at hcount
    exact hcount
  · change s.holders (.value w) + _ = if w ∈ s.availableValues ++ [v] then 0 else 1
    rcases eq_or_ne w v with rfl | hne
    · rw [if_pos (by simp)]
      omega
    · have hother := h.once w
      rw [List.count_cons_of_ne (by rintro ⟨⟩; exact hne rfl)] at hother
      rw [hother]
      simp [hne]
  · exact h.nodupValues.append (List.nodup_singleton v)
      (List.disjoint_singleton.mpr hnot)

/-- **The last holder of an object is gone**: what it held is left to release. -/
theorem Owned.clearObject (h : Owned s (.object o :: ts))
    (hone : (s.objects o).referenceCount = 1) :
    Owned (s.clearObject o) ((s.objects o).pointers ++ ts) := by
  have hnot : o ∉ s.availableObjects := h.not_mem_of_pos (by
    simp only [List.count_cons_self]
    omega)
  have hcount := h.count o
  rw [hone, List.count_cons_self] at hcount
  have hholders : ∀ q, (s.clearObject o).holders q + (s.objects o).pointers.count q =
      s.holders q := by
    intro q
    exact s.holders_updateObject o (fun _ => JsonObjectCell.cleared) q
  have hself : (s.clearObject o).objects o = JsonObjectCell.cleared := Function.update_self o _ _
  have hother : ∀ {o'}, o' ≠ o → (s.clearObject o).objects o' = s.objects o' :=
    fun hne => Function.update_of_ne hne _ _
  have hnat : (1 : UInt32).toNat = 1 := rfl
  refine ⟨fun o' => ?_, fun o' => ?_, ?_, fun o' ho' => ?_, fun v => ?_, h.nodupValues⟩
  · have hsum := hholders (.object o')
    rw [List.count_append]
    rcases eq_or_ne o' o with rfl | hne
    · rw [hself]
      change 0 = _
      omega
    · have hcount' := h.count o'
      rw [List.count_cons_of_ne (by rintro ⟨⟩; exact hne rfl)] at hcount'
      rw [hother hne]
      omega
  · change o' ∈ s.availableObjects ++ [o] ↔ _
    rcases eq_or_ne o' o with rfl | hne
    · rw [hself]
      exact iff_of_true (by simp) rfl
    · rw [hother hne, ← h.available o']
      simp [hne]
  · exact h.nodup.append (List.nodup_singleton o) (List.disjoint_singleton.mpr hnot)
  · rcases eq_or_ne o' o with rfl | hne
    · exact hself
    · rw [hother hne]
      have hmem : o' ∈ s.availableObjects ++ [o] := ho'
      exact h.cleared o' (by simpa [hne] using hmem)
  · have hsum := hholders (.value v)
    have honce := h.once v
    rw [List.count_cons_of_ne (by rintro ⟨⟩)] at honce
    rw [List.count_append]
    change _ = if v ∈ s.availableValues then 0 else 1
    omega

/-- **The number of holders of an object changes**, and it stays in use. -/
theorem Owned.recountObject {c : UInt32} (h : Owned s ts) (ho : o ∉ s.availableObjects)
    (hcount : c.toNat = s.holders (.object o) + ts'.count (.object o)) (hpos : 0 < c.toNat)
    (hothers : ∀ q, q ≠ .object o → ts'.count q = ts.count q) :
    Owned (s.updateObject o fun cell => { cell with referenceCount := c }) ts' := by
  have hholders : ∀ q, (s.updateObject o fun cell =>
      { cell with referenceCount := c }).holders q = s.holders q := by
    intro q
    have hupdate := s.holders_updateObject o (fun cell => { cell with referenceCount := c }) q
    simp only [count_pointers] at hupdate
    omega
  refine ⟨fun o' => ?_, fun o' => ?_, h.nodup, fun o' ho' => ?_, fun v => ?_, h.nodupValues⟩
  · rw [hholders]
    rcases eq_or_ne o' o with rfl | hne
    · rw [updateObject_self, hcount]
    · rw [updateObject_of_ne hne, h.count, hothers _ (by rintro ⟨⟩; exact hne rfl)]
  · rw [updateObject_availableObjects]
    rcases eq_or_ne o' o with rfl | hne
    · rw [updateObject_self]
      refine iff_of_false ho fun hzero => ?_
      have htoNat : c.toNat = (0 : UInt32).toNat := congrArg UInt32.toNat hzero
      have hnat : (0 : UInt32).toNat = 0 := rfl
      omega
    · rw [updateObject_of_ne hne, h.available]
  · have hne : o' ≠ o := fun heq => ho (heq ▸ ho')
    rw [updateObject_of_ne hne, h.cleared o' ho']
  · rw [hholders, hothers _ (by rintro ⟨⟩), updateObject_availableValues, h.once]

/-- An object loses a holder that is not its last. -/
theorem Owned.decrement (h : Owned s (.object o :: ts))
    (hone : (s.objects o).referenceCount ≠ 1) :
    Owned (s.updateObject o fun cell =>
      { cell with referenceCount := cell.referenceCount - 1 }) ts := by
  have hcount := h.count o
  rw [List.count_cons_self] at hcount
  have hnat : (1 : UInt32).toNat = 1 := rfl
  have hne : (s.objects o).referenceCount.toNat ≠ 1 := fun heq => hone (UInt32.toNat_inj.mp heq)
  have hsub : ((s.objects o).referenceCount - 1).toNat = (s.objects o).referenceCount.toNat - 1 :=
    UInt32.toNat_sub_of_le _ _ (UInt32.le_iff_toNat_le.mpr (by omega))
  have hnot : o ∉ s.availableObjects := h.not_mem_of_pos (by
    simp only [List.count_cons_self]
    omega)
  exact h.recountObject hnot (by omega) (by omega)
    fun q hq => (List.count_cons_of_ne (Ne.symm hq)).symm

/-- An object gains a holder. -/
theorem Owned.increment (h : Owned s ts) (ho : o ∉ s.availableObjects)
    (hroom : (s.objects o).referenceCount.toNat + 1 < 2 ^ 32) :
    Owned (s.updateObject o fun cell =>
      { cell with referenceCount := cell.referenceCount + 1 }) (.object o :: ts) := by
  have hcount := h.count o
  have hnat : (1 : UInt32).toNat = 1 := rfl
  have hadd : ((s.objects o).referenceCount + 1).toNat = (s.objects o).referenceCount.toNat + 1 := by
    rw [UInt32.toNat_add, hnat, Nat.mod_eq_of_lt hroom]
  refine h.recountObject ho ?_ (by omega) fun q hq => List.count_cons_of_ne (Ne.symm hq)
  rw [List.count_cons_self]
  omega

/-! ### The releases that follow one another -/

/-- The slots of one container are exchanged. -/
theorem slotCount_updateObject (s : JsonStore n m) (o : Fin n)
    (f : JsonObjectCell n m → JsonObjectCell n m) :
    (s.updateObject o f).slotCount + (s.objects o).pointers.length =
      s.slotCount + (f (s.objects o)).pointers.length := by
  have hsum : ∑ x ∈ Finset.univ.erase o, ((s.updateObject o f).objects x).pointers.length =
      ∑ x ∈ Finset.univ.erase o, (s.objects x).pointers.length := by
    refine Finset.sum_congr rfl fun x hx => ?_
    rw [updateObject_of_ne (Finset.ne_of_mem_erase hx)]
  have hnew := Finset.add_sum_erase Finset.univ
    (fun x => ((s.updateObject o f).objects x).pointers.length) (Finset.mem_univ o)
  have hold := Finset.add_sum_erase Finset.univ
    (fun x => (s.objects x).pointers.length) (Finset.mem_univ o)
  simp only [updateObject_self] at hnew
  rw [slotCount, slotCount]
  omega

/-- **The rule for releases**: what every one of them keeps, with what is left to release, holds
when they are done. -/
theorem release_rule {P : JsonStore n m → List (JsonPointer n m) → Prop}
    (hnull : ∀ s ps, P s (.null :: ps) → P s ps)
    (hvalue : ∀ s v ps, P s (.value v :: ps) → P (s.releaseValue v) ps)
    (hlast : ∀ s o ps, (s.objects o).referenceCount = 1 → P s (.object o :: ps) →
      P (s.clearObject o) ((s.objects o).pointers ++ ps))
    (hother : ∀ s o ps, (s.objects o).referenceCount ≠ 1 → P s (.object o :: ps) →
      P (s.updateObject o fun cell => { cell with referenceCount := cell.referenceCount - 1 }) ps)
    (h : P s [p]) : P (s.release p) [] := by
  suffices hall : ∀ fuel ps s, P s ps → s.slotCount + ps.length ≤ fuel →
      P (releaseAll fuel ps s) [] from hall _ _ _ h (by rw [List.length_singleton])
  intro fuel
  induction fuel with
  | zero =>
    intro ps s hP hfuel
    obtain rfl : ps = [] := List.length_eq_zero_iff.mp (by omega)
    exact hP
  | succ fuel ih =>
    intro ps s hP hfuel
    match ps, hP with
    | [], hP => exact hP
    | .null :: ps, hP =>
      rw [List.length_cons] at hfuel
      exact ih ps s (hnull s ps hP) (by omega)
    | .value v :: ps, hP =>
      rw [List.length_cons] at hfuel
      have hcount : (s.releaseValue v).slotCount = s.slotCount := rfl
      exact ih ps _ (hvalue s v ps hP) (by omega)
    | .object o :: ps, hP =>
      rw [List.length_cons] at hfuel
      rw [releaseAll]
      by_cases hone : (s.objects o).referenceCount = 1
      · have hcount : (s.clearObject o).slotCount + (s.objects o).pointers.length = s.slotCount :=
          s.slotCount_updateObject o fun _ => JsonObjectCell.cleared
        rw [if_pos hone]
        refine ih _ _ (hlast s o ps hone hP) ?_
        rw [List.length_append]
        omega
      · have hcount := s.slotCount_updateObject o fun cell =>
          { cell with referenceCount := cell.referenceCount - 1 }
        have hpointers : ∀ (cell : JsonObjectCell n m),
            ({ cell with referenceCount := cell.referenceCount - 1 } : JsonObjectCell n m).pointers
              = cell.pointers := fun _ => rfl
        rw [hpointers] at hcount
        rw [if_neg hone]
        exact ih _ _ (hother s o ps hone hP) (by omega)

/-! ### What comes out of a pool -/

theorem acquireValue_eq_ok : s.acquireValue = .ok (v, s') ↔
    ∃ vs, s.availableValues = v :: vs ∧ s' = { s with availableValues := vs } := by
  rw [acquireValue]
  constructor
  · intro h
    split at h
    case h_1 => cases h
    case h_2 w vs hfree =>
      cases h
      exact ⟨vs, hfree, rfl⟩
  · rintro ⟨vs, hfree, rfl⟩
    rw [hfree]

theorem acquireObject_eq_ok : s.acquireObject = .ok (o, s') ↔
    ∃ os, s.availableObjects = o :: os ∧
      s' = { s with availableObjects := os }.updateObject o fun cell =>
        { cell with referenceCount := 1 } := by
  rw [acquireObject]
  constructor
  · intro h
    split at h
    case h_1 => cases h
    case h_2 o' os hfree =>
      cases h
      exact ⟨os, hfree, rfl⟩
  · rintro ⟨os, hfree, rfl⟩
    rw [hfree]

theorem Owned.acquireValue {vs : List (Fin m)} (h : Owned s ts)
    (hfree : s.availableValues = v :: vs) :
    Owned { s with availableValues := vs } (.value v :: ts) := by
  have hnodup : (v :: vs).Nodup := hfree ▸ h.nodupValues
  refine ⟨fun o => ?_, h.available, h.nodup, h.cleared, fun w => ?_, (List.nodup_cons.mp hnodup).2⟩
  · rw [List.count_cons_of_ne (by rintro ⟨⟩)]
    exact h.count o
  · have honce := h.once w
    rw [hfree] at honce
    change s.holders (.value w) + _ = if w ∈ vs then 0 else 1
    rcases eq_or_ne w v with rfl | hne
    · rw [if_pos List.mem_cons_self] at honce
      rw [if_neg (List.nodup_cons.mp hnodup).1, List.count_cons_self]
      omega
    · rw [List.count_cons_of_ne (by rintro ⟨⟩; exact hne rfl)]
      simpa [hne] using honce

theorem Owned.acquireObject {os : List (Fin n)} (h : Owned s ts)
    (hfree : s.availableObjects = o :: os) :
    Owned ({ s with availableObjects := os }.updateObject o fun cell =>
      { cell with referenceCount := 1 }) (.object o :: ts) := by
  have hnodup : (o :: os).Nodup := hfree ▸ h.nodup
  have hmem : o ∈ s.availableObjects := hfree ▸ List.mem_cons_self
  have hcount := h.count o
  rw [(h.available o).mp hmem] at hcount
  have hnat : (0 : UInt32).toNat = 0 := rfl
  have hone : (1 : UInt32).toNat = 1 := rfl
  have hholders : ∀ q, ({ s with availableObjects := os }.updateObject o fun cell =>
      { cell with referenceCount := 1 }).holders q = s.holders q := by
    intro q
    have hupdate := { s with availableObjects := os }.holders_updateObject o
      (fun cell => { cell with referenceCount := 1 }) q
    simp only [count_pointers] at hupdate
    have hsame : ({ s with availableObjects := os } : JsonStore n m).holders q = s.holders q := rfl
    omega
  refine ⟨fun o' => ?_, fun o' => ?_, (List.nodup_cons.mp hnodup).2, fun o' ho' => ?_, fun v => ?_,
    h.nodupValues⟩
  · rw [hholders]
    rcases eq_or_ne o' o with rfl | hne
    · rw [updateObject_self, List.count_cons_self]
      change (1 : UInt32).toNat = _
      omega
    · rw [updateObject_of_ne hne, List.count_cons_of_ne (by rintro ⟨⟩; exact hne rfl)]
      exact h.count o'
  · change o' ∈ os ↔ _
    rcases eq_or_ne o' o with rfl | hne
    · rw [updateObject_self]
      refine iff_of_false (List.nodup_cons.mp hnodup).1 fun hzero => ?_
      have htoNat : (1 : UInt32).toNat = (0 : UInt32).toNat := congrArg UInt32.toNat hzero
      omega
    · rw [updateObject_of_ne hne]
      have havailable := h.available o'
      rw [hfree] at havailable
      simpa [hne] using havailable
  · change o' ∈ os at ho'
    have hne : o' ≠ o := fun heq => (List.nodup_cons.mp hnodup).1 (heq ▸ ho')
    rw [updateObject_of_ne hne]
    exact h.cleared o' (hfree ▸ List.mem_cons_of_mem o ho')
  · rw [hholders, List.count_cons_of_ne (by rintro ⟨⟩)]
    exact h.once v

end JsonStore

end TradingEngine
