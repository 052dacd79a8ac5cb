import TradingEngine.Json.Counting

/-!
# Json/Confinement — what a call can reach

A region is a part of the store: handles, and items of which none holds an item outside.  What is
free in the pools belongs to every region.  `Within` says that a call, from the store it began with
to the one it has reached, has kept the counts right and has changed the region only.

A region can be quoted: no string in it has its quoting off.
-/

namespace TradingEngine

open JsonObjectCell

/-- A part of a store. -/
structure JsonRegion (n m : ℕ) where
  items : JsonPointer n m → Prop
  handles : ℕ → Prop
  quoted : Prop

variable {n m : ℕ}

/-- The places that belong to a region. -/
def JsonRegion.Has (R : JsonRegion n m) : JsonPlace n → Prop
  | .handle i => R.handles i
  | .field o _ | .element o _ => R.items (.object o)

namespace JsonStore

variable {R : JsonRegion n m} {s₀ s s' : JsonStore n m} {k : ℕ} {ts ts' : List (JsonPointer n m)}
  {place : JsonPlace n} {old p q : JsonPointer n m} {o : Fin n} {v : Fin m}

/-- **A call has stayed within a region.**  `ts` is what it holds itself for the moment; `k` more
copies leave the counts in range. -/
structure Within (R : JsonRegion n m) (s₀ : JsonStore n m) (k : ℕ) (s : JsonStore n m)
    (ts : List (JsonPointer n m)) : Prop where
  owned : Owned s ts
  inFlight : ∀ p ∈ ts, R.items p
  copies : k + 1 < 2 ^ 32
  room : ∀ o, (s.objects o).referenceCount.toNat + k < 2 ^ 32
  null : R.items .null
  freeObjects : ∀ o ∈ s.availableObjects, R.items (.object o)
  freeValues : ∀ v ∈ s.availableValues, R.items (.value v)
  fresh : ∀ i, s₀.handles.length ≤ i → R.handles i
  grown : s₀.handles.length ≤ s.handles.length
  ofHandle : ∀ i p, R.handles i → s.pointerAt (.handle i) = some p → R.items p
  ofSlot : ∀ o, R.items (.object o) → ∀ p ∈ (s.objects o).pointers, R.items p
  objects : ∀ o, ¬ R.items (.object o) → s.objects o = s₀.objects o
  values : ∀ v, ¬ R.items (.value v) → s.values v = s₀.values v
  others : ∀ i, ¬ R.handles i → s.handles[i]? = s₀.handles[i]?
  quoted : s.unquotedReleases = 0 → ∀ v, R.items (.value v) → R.quoted ∨ v ∈ s.availableValues →
    (s.values v).isStringFormat = true
  history : s₀.unquotedReleases ≤ s.unquotedReleases

/-! ## Places -/

/-- A slot of a container holds what is at the place. -/
theorem mem_pointers_field {key : List UInt8} (h : s.pointerAt (.field o key) = some p) :
    p ∈ (s.objects o).pointers := by
  obtain ⟨fs, gs, hobject, -⟩ := List.lookup_eq_some_iff.mp h
  rw [pointers, hobject]
  simp

theorem mem_pointers_element {i : ℕ} (h : s.pointerAt (.element o i) = some p) :
    p ∈ (s.objects o).pointers :=
  List.mem_append_right _ (List.mem_of_getElem? h)

theorem Within.items_of_has (h : Within R s₀ k s ts) (hhas : R.Has place)
    (hat : s.pointerAt place = some p) : R.items p := by
  cases place with
  | handle i => exact h.ofHandle i p hhas hat
  | field o key => exact h.ofSlot o hhas p (mem_pointers_field hat)
  | element o i => exact h.ofSlot o hhas p (mem_pointers_element hat)

/-- **Outside the region everything is where it was.** -/
theorem Within.pointerAt_eq (h : Within R s₀ k s ts) (hhas : ¬ R.Has place) :
    s.pointerAt place = s₀.pointerAt place := by
  cases place with
  | handle i => rw [pointerAt, pointerAt, h.others i hhas]
  | field o key => rw [pointerAt, pointerAt, h.objects o hhas]
  | element o i => rw [pointerAt, pointerAt, h.objects o hhas]

/-- What a place holds is in use. -/
theorem Within.not_available (h : Within R s₀ k s ts) (hat : s.pointerAt place = some (.object o)) :
    o ∉ s.availableObjects :=
  h.owned.not_mem_of_pos (Nat.add_pos_left (holders_pos hat (by rintro ⟨⟩)) _)

theorem Within.not_available_value (h : Within R s₀ k s ts)
    (hat : s.pointerAt place = some (.value v)) : v ∉ s.availableValues :=
  h.owned.not_mem_values_of_pos (Nat.add_pos_left (holders_pos hat (by rintro ⟨⟩)) _)

/-! ## The single changes -/

theorem Within.cons_null : Within R s₀ k s (.null :: ts) ↔ Within R s₀ k s ts := by
  constructor <;> intro h
  · exact { h with
      owned := Owned.cons_null.mp h.owned
      inFlight := (List.forall_mem_cons.mp h.inFlight).2 }
  · exact { h with
      owned := Owned.cons_null.mpr h.owned
      inFlight := List.forall_mem_cons.mpr ⟨h.null, h.inFlight⟩ }

theorem Within.perm (h : Within R s₀ k s ts) (hts : ts.Perm ts') : Within R s₀ k s ts' :=
  { h with
    owned := h.owned.perm hts
    inFlight := fun p hp => h.inFlight p (hts.mem_iff.mpr hp) }

/-- A copy that is not made leaves room. -/
theorem Within.fewer {j : ℕ} (h : Within R s₀ k s ts) (hj : j ≤ k) : Within R s₀ j s ts :=
  { h with
    copies := by have hcopies := h.copies; omega
    room := fun o => by have hroom := h.room o; omega }

/-- **A container of the region is changed.**  What is in flight can be put into it, and what it
held can be taken out. -/
theorem Within.updateObject {f : JsonObjectCell n m → JsonObjectCell n m}
    (h : Within R s₀ k s ts) (ho : R.items (.object o)) (hnot : o ∉ s.availableObjects)
    (hcount : (f (s.objects o)).referenceCount = (s.objects o).referenceCount)
    (hpointers : ∀ q, q ≠ .null → (f (s.objects o)).pointers.count q + ts'.count q =
      (s.objects o).pointers.count q + ts.count q) :
    Within R s₀ k (s.updateObject o f) ts' := by
  have hitems : ∀ q, q ∈ (f (s.objects o)).pointers ∨ q ∈ ts' → R.items q := by
    intro q hq
    by_cases hnull : q = .null
    · exact hnull ▸ h.null
    · have hsum := hpointers q hnull
      have hpos : 0 < (f (s.objects o)).pointers.count q + ts'.count q := by
        rcases hq with hq | hq
        · exact Nat.add_pos_left (List.count_pos_iff.mpr hq) _
        · exact Nat.add_pos_right _ (List.count_pos_iff.mpr hq)
      rcases Nat.eq_zero_or_pos ((s.objects o).pointers.count q) with hzero | hslot
      · exact h.inFlight q (List.count_pos_iff.mp (by omega))
      · exact h.ofSlot o ho q (List.count_pos_iff.mp hslot)
  exact { h with
    owned := h.owned.updateObject hnot hcount hpointers
    inFlight := fun q hq => hitems q (.inr hq)
    room := fun o' => by
      rcases eq_or_ne o' o with rfl | hne
      · rw [updateObject_self, hcount]
        exact h.room o'
      · rw [updateObject_of_ne hne]
        exact h.room o'
    ofSlot := fun o' ho' q hq => by
      rcases eq_or_ne o' o with rfl | hne
      · rw [updateObject_self] at hq
        exact hitems q (.inl hq)
      · rw [updateObject_of_ne hne] at hq
        exact h.ofSlot o' ho' q hq
    objects := fun o' ho' => by
      have hne : o' ≠ o := fun heq => ho' (heq ▸ ho)
      rw [updateObject_of_ne hne]
      exact h.objects o' ho' }

/-- A value of the region that is in use is changed. -/
theorem Within.updateValue {g : JsonValueCell → JsonValueCell} (h : Within R s₀ k s ts)
    (hv : R.items (.value v)) (hnot : v ∉ s.availableValues)
    (hquoted : R.quoted → s.unquotedReleases = 0 → (s.values v).isStringFormat = true →
      (g (s.values v)).isStringFormat = true) : Within R s₀ k (s.updateValue v g) ts :=
  { h with
    owned := h.owned.updateValue v
    values := fun w hw => by
      have hne : w ≠ v := fun heq => hw (heq ▸ hv)
      rw [updateValue_of_ne hne]
      exact h.values w hw
    quoted := fun hzero w hw hor => by
      rcases eq_or_ne w v with rfl | hne
      · rw [updateValue_self]
        rcases hor with hR | hfree
        · exact hquoted hR hzero (h.quoted hzero w hw (.inl hR))
        · exact absurd hfree hnot
      · rw [updateValue_of_ne hne]
        exact h.quoted hzero w hw hor }

theorem Within.newHandle (h : Within R s₀ k s (p :: ts)) : Within R s₀ k (s.newHandle p) ts :=
  { h with
    owned := h.owned.newHandle
    inFlight := (List.forall_mem_cons.mp h.inFlight).2
    grown := by
      change s₀.handles.length ≤ (s.handles ++ [some p]).length
      rw [List.length_append]
      exact h.grown.trans (Nat.le_add_right _ _)
    ofHandle := fun i q hi hq => by
      change ((s.handles ++ [some p])[i]?).join = some q at hq
      rcases Nat.lt_or_ge i s.handles.length with hlt | hge
      · rw [List.getElem?_append_left hlt] at hq
        exact h.ofHandle i q hi hq
      · rw [List.getElem?_append_right hge] at hq
        obtain rfl : p = q := by
          rcases Nat.eq_zero_or_pos (i - s.handles.length) with hzero | hpos
          · rw [hzero] at hq
            exact Option.some.inj hq
          · rw [List.getElem?_eq_none (by rw [List.length_singleton]; exact hpos)] at hq
            cases hq
        exact h.inFlight p List.mem_cons_self
    others := fun i hi => by
      have hlt : i < s.handles.length :=
        (Nat.lt_of_not_le fun hle => hi (h.fresh i hle)).trans_le h.grown
      change (s.handles ++ [some p])[i]? = _
      rw [List.getElem?_append_left hlt]
      exact h.others i hi }

/-- A handle of the region is made to hold something else, or nothing. -/
theorem Within.setHandle {i : ℕ} {new : Option (JsonPointer n m)} (h : Within R s₀ k s ts)
    (hi : R.handles i) (howned : Owned { s with handles := s.handles.set i new } ts')
    (hnew : ∀ q, new = some q → R.items q) (hts : ∀ q ∈ ts', R.items q) :
    Within R s₀ k { s with handles := s.handles.set i new } ts' :=
  { h with
    owned := howned
    inFlight := hts
    grown := by
      rw [List.length_set]
      exact h.grown
    ofHandle := fun j q hj hq => by
      change ((s.handles.set i new)[j]?).join = some q at hq
      rcases eq_or_ne i j with rfl | hne
      · rw [List.getElem?_set_self'] at hq
        rcases hget : s.handles[i]? with _ | x
        · rw [hget] at hq
          cases hq
        · rw [hget] at hq
          exact hnew q hq
      · rw [List.getElem?_set_ne hne] at hq
        exact h.ofHandle j q hj hq
    others := fun j hj => by
      have hne : i ≠ j := fun heq => hj (heq ▸ hi)
      change (s.handles.set i new)[j]? = _
      rw [List.getElem?_set_ne hne]
      exact h.others j hj }

theorem Within.dropHandle {i : ℕ} (h : Within R s₀ k s ts) (hi : R.handles i)
    (hat : s.pointerAt (.handle i) = some p) :
    Within R s₀ k { s with handles := s.handles.set i none } (p :: ts) :=
  h.setHandle hi (h.owned.dropHandle hat) (by rintro q ⟨⟩)
    (List.forall_mem_cons.mpr ⟨h.ofHandle i p hi hat, h.inFlight⟩)

/-- **A place of the region is made to hold what was in flight**; what it held is in flight then. -/
theorem Within.assign (h : Within R s₀ k s (p :: ts)) (hhas : R.Has place)
    (hat : s.pointerAt place = some old) : Within R s₀ k (s.assign p place) (old :: ts) := by
  cases place with
  | handle i =>
    refine h.setHandle hhas ?_ ?_ ?_
    · refine h.owned.recount (fun _ => rfl) rfl rfl (fun _ _ => rfl) fun q _ => ?_
      have hassign := holders_assign hat p q
      simp only [JsonStore.assign, List.count_cons, List.count_nil] at hassign ⊢
      omega
    · rintro q ⟨⟩
      exact h.inFlight p List.mem_cons_self
    · exact List.forall_mem_cons.mpr
        ⟨h.ofHandle i old hhas hat, (List.forall_mem_cons.mp h.inFlight).2⟩
  | field o key =>
    have hslot : (s.objects o).pointers ≠ [] := List.ne_nil_of_mem (mem_pointers_field hat)
    refine h.updateObject (f := fun cell => { cell with object := setField key p cell.object }) hhas
      (h.owned.not_mem_of_slot hslot) rfl fun q _ => ?_
    have hfield := count_setField hat p q
    simp only [count_pointers, List.count_cons, List.count_nil] at hfield ⊢
    omega
  | element o i =>
    have hslot : (s.objects o).pointers ≠ [] := List.ne_nil_of_mem (mem_pointers_element hat)
    refine h.updateObject (f := fun cell => { cell with array := cell.array.set i p }) hhas
      (h.owned.not_mem_of_slot hslot) rfl fun q _ => ?_
    have helement := count_set_element hat p q
    simp only [count_pointers, List.count_cons, List.count_nil] at helement ⊢
    omega

/-! ## Releases -/

/-- **A value keeps its quoting** when it comes back to its pool. -/
theorem isStringFormat_releaseValue (s : JsonStore n m) (v w : Fin m) :
    ((s.releaseValue v).values w).isStringFormat = (s.values w).isStringFormat := by
  rcases eq_or_ne w v with rfl | hne
  · change (Function.update s.values w _ w).isStringFormat = _
    rw [Function.update_self]
  · exact congrArg JsonValueCell.isStringFormat (Function.update_of_ne hne _ _)

theorem Within.releaseValue (h : Within R s₀ k s (.value v :: ts)) :
    Within R s₀ k (s.releaseValue v) ts := by
  have hv : R.items (.value v) := h.inFlight _ List.mem_cons_self
  exact { h with
    owned := h.owned.releaseValue
    inFlight := (List.forall_mem_cons.mp h.inFlight).2
    freeValues := fun w hw => by
      rcases List.mem_append.mp hw with hw | hw
      · exact h.freeValues w hw
      · exact (List.mem_singleton.mp hw) ▸ hv
    values := fun w hw => by
      have hne : w ≠ v := fun heq => hw (heq ▸ hv)
      exact (Function.update_of_ne hne _ _).trans (h.values w hw)
    quoted := fun hzero w hw hor => by
      change s.unquotedReleases + (if (s.values v).isStringFormat then 0 else 1) = 0 at hzero
      rw [isStringFormat_releaseValue]
      rcases hor with hR | hfree
      · exact h.quoted (by omega) w hw (.inl hR)
      · rcases List.mem_append.mp hfree with hfree | hself
        · exact h.quoted (by omega) w hw (.inr hfree)
        · rw [List.mem_singleton.mp hself]
          by_contra hunquoted
          rw [if_neg hunquoted] at hzero
          omega
    history := h.history.trans (Nat.le_add_right _ _) }

theorem Within.clearObject (h : Within R s₀ k s (.object o :: ts))
    (hone : (s.objects o).referenceCount = 1) :
    Within R s₀ k (s.clearObject o) ((s.objects o).pointers ++ ts) := by
  have ho : R.items (.object o) := h.inFlight _ List.mem_cons_self
  have hself : (s.clearObject o).objects o = JsonObjectCell.cleared := Function.update_self o _ _
  have hother : ∀ {o'}, o' ≠ o → (s.clearObject o).objects o' = s.objects o' :=
    fun hne => Function.update_of_ne hne _ _
  exact { h with
    owned := h.owned.clearObject hone
    inFlight := fun q hq => by
      rcases List.mem_append.mp hq with hq | hq
      · exact h.ofSlot o ho q hq
      · exact h.inFlight q (List.mem_cons_of_mem _ hq)
    room := fun o' => by
      rcases eq_or_ne o' o with rfl | hne
      · rw [hself]
        have hcopies := h.copies
        change 0 + k < 2 ^ 32
        omega
      · rw [hother hne]
        exact h.room o'
    freeObjects := fun o' ho' => by
      rcases List.mem_append.mp ho' with ho' | ho'
      · exact h.freeObjects o' ho'
      · exact (List.mem_singleton.mp ho') ▸ ho
    ofSlot := fun o' ho' q hq => by
      rcases eq_or_ne o' o with rfl | hne
      · rw [hself] at hq
        exact absurd hq List.not_mem_nil
      · rw [hother hne] at hq
        exact h.ofSlot o' ho' q hq
    objects := fun o' ho' => by
      have hne : o' ≠ o := fun heq => ho' (heq ▸ ho)
      exact (hother hne).trans (h.objects o' ho') }

/-- The number of holders of a container of the region changes. -/
theorem Within.recountObject {c : UInt32} {j : ℕ} (h : Within R s₀ k s ts)
    (ho : R.items (.object o)) (howned : Owned (s.updateObject o fun cell =>
      { cell with referenceCount := c }) ts') (hts : ∀ q ∈ ts', R.items q)
    (hj : j ≤ k) (hroom : c.toNat + j < 2 ^ 32) :
    Within R s₀ j (s.updateObject o fun cell => { cell with referenceCount := c }) ts' :=
  { h with
    owned := howned
    inFlight := hts
    copies := by have hcopies := h.copies; omega
    room := fun o' => by
      rcases eq_or_ne o' o with rfl | hne
      · rw [updateObject_self]
        exact hroom
      · rw [updateObject_of_ne hne]
        have hroom' := h.room o'
        omega
    ofSlot := fun o' ho' q hq => by
      rcases eq_or_ne o' o with rfl | hne
      · rw [updateObject_self] at hq
        exact h.ofSlot o' ho' q hq
      · rw [updateObject_of_ne hne] at hq
        exact h.ofSlot o' ho' q hq
    objects := fun o' ho' => by
      have hne : o' ≠ o := fun heq => ho' (heq ▸ ho)
      rw [updateObject_of_ne hne]
      exact h.objects o' ho' }

/-- **A release stays within the region** of what it is given. -/
theorem Within.release (h : Within R s₀ k s (p :: ts)) : Within R s₀ k (s.release p) ts := by
  refine release_rule (P := fun s ps => Within R s₀ k s (ps ++ ts)) ?_ ?_ ?_ ?_ h
  · exact fun s ps hs => Within.cons_null.mp hs
  · exact fun s v ps hs => Within.releaseValue hs
  · intro s o ps hone hs
    rw [List.append_assoc]
    exact Within.clearObject hs hone
  · intro s o ps hone hs
    have hcount := hs.owned.count o
    rw [List.cons_append, List.count_cons_self] at hcount
    have hle : (1 : UInt32) ≤ (s.objects o).referenceCount :=
      UInt32.le_iff_toNat_le.mpr (by have hnat : (1 : UInt32).toNat = 1 := rfl; omega)
    have hsub := UInt32.toNat_sub_of_le _ _ hle
    have hroom := hs.room o
    exact hs.recountObject (hs.inFlight _ List.mem_cons_self) (hs.owned.decrement hone)
      (List.forall_mem_cons.mp hs.inFlight).2 le_rfl (by omega)

/-- The slots that are destroyed are released one after the other. -/
theorem Within.releases (h : Within R s₀ k s (ts' ++ ts)) :
    Within R s₀ k (ts'.foldl JsonStore.release s) ts := by
  induction ts' generalizing s with
  | nil => exact h
  | cons p ts' ih => exact ih h.release

/-! ## What comes out of a pool -/

theorem Within.acquireValue (h : Within R s₀ k s ts) (hok : s.acquireValue = .ok (v, s')) :
    Within R s₀ k s' (.value v :: ts) ∧ v ∉ s'.availableValues := by
  obtain ⟨vs, hfree, rfl⟩ := acquireValue_eq_ok.mp hok
  have hv : v ∈ s.availableValues := hfree ▸ List.mem_cons_self
  have hsub : ∀ w ∈ vs, w ∈ s.availableValues := fun w hw => hfree ▸ List.mem_cons_of_mem v hw
  have hnodup : (v :: vs).Nodup := hfree ▸ h.owned.nodupValues
  exact ⟨{ h with
    owned := h.owned.acquireValue hfree
    inFlight := List.forall_mem_cons.mpr ⟨h.freeValues v hv, h.inFlight⟩
    freeValues := fun w hw => h.freeValues w (hsub w hw)
    quoted := fun hzero w hw hor => h.quoted hzero w hw (hor.imp_right (hsub w)) },
    (List.nodup_cons.mp hnodup).1⟩

/-- A container that comes out of the pool is empty. -/
theorem Within.acquireObject (h : Within R s₀ k s ts) (hok : s.acquireObject = .ok (o, s')) :
    Within R s₀ k s' (.object o :: ts) ∧ o ∉ s'.availableObjects ∧
      s'.objects o = { JsonObjectCell.cleared with referenceCount := 1 } := by
  obtain ⟨os, hfree, rfl⟩ := acquireObject_eq_ok.mp hok
  have ho : o ∈ s.availableObjects := hfree ▸ List.mem_cons_self
  have hnodup : (o :: os).Nodup := hfree ▸ h.owned.nodup
  have hself : (({ s with availableObjects := os } : JsonStore n m).updateObject o fun cell =>
      { cell with referenceCount := 1 }).objects o =
        { JsonObjectCell.cleared with referenceCount := 1 } := by
    rw [updateObject_self, h.owned.cleared o ho]
  refine ⟨{ h with
    owned := h.owned.acquireObject hfree
    inFlight := List.forall_mem_cons.mpr ⟨h.freeObjects o ho, h.inFlight⟩
    room := fun o' => ?_
    freeObjects := fun o' ho' => h.freeObjects o' (hfree ▸ List.mem_cons_of_mem o ho')
    ofSlot := fun o' ho' q hq => ?_
    objects := fun o' ho' => ?_ }, (List.nodup_cons.mp hnodup).1, hself⟩
  · rcases eq_or_ne o' o with rfl | hne
    · rw [hself]
      have hcopies := h.copies
      change 1 + k < 2 ^ 32
      omega
    · rw [updateObject_of_ne hne]
      exact h.room o'
  · rcases eq_or_ne o' o with rfl | hne
    · rw [hself] at hq
      exact absurd hq List.not_mem_nil
    · rw [updateObject_of_ne hne] at hq
      exact h.ofSlot o' ho' q hq
  · have hne : o' ≠ o := fun heq => ho' (heq ▸ h.freeObjects o ho)
    rw [updateObject_of_ne hne]
    exact h.objects o' ho'

/-! ## Copies -/

/-- What can be copied into a region: a container of the region, or any value; where the region is
quoted, a value of the region. -/
def Accepts (R : JsonRegion n m) (p : JsonPointer n m) : Prop :=
  (∀ o, p = .object o → R.items p) ∧ (R.quoted → R.items p)

theorem Within.copyValue (h : Within R s₀ k s ts) (hv : R.quoted → R.items (.value v))
    (hok : s.copy (.value v) = .ok (q, s')) : Within R s₀ k s' (q :: ts) := by
  obtain ⟨⟨w, s₁⟩, hacquire, hrest⟩ := Except.bind_eq_ok.mp hok
  cases hrest
  obtain ⟨hs₁, hw⟩ := h.acquireValue hacquire
  obtain ⟨vs, hfree, rfl⟩ := acquireValue_eq_ok.mp hacquire
  exact hs₁.updateValue (hs₁.inFlight _ List.mem_cons_self) hw
    fun hR hzero _ => h.quoted hzero v (hv hR) (.inl hR)

/-- **A copy of what a place holds.** -/
theorem Within.copy (h : Within R s₀ (k + 1) s ts) (hat : s.pointerAt place = some p)
    (hp : Accepts R p) (hok : s.copy p = .ok (q, s')) : Within R s₀ k s' (q :: ts) := by
  cases p with
  | null =>
    cases hok
    exact Within.cons_null.mpr (h.fewer (Nat.le_succ k))
  | value v => exact (h.fewer (Nat.le_succ k)).copyValue hp.2 hok
  | object o =>
    cases hok
    have hroom := h.room o
    have hone : (1 : UInt32).toNat = 1 := rfl
    have hadd : ((s.objects o).referenceCount + 1).toNat =
        (s.objects o).referenceCount.toNat + 1 := by
      rw [UInt32.toNat_add, hone, Nat.mod_eq_of_lt (by omega)]
    exact h.recountObject (hp.1 o rfl) (h.owned.increment (h.not_available hat) (by omega))
      (List.forall_mem_cons.mpr ⟨hp.1 o rfl, h.inFlight⟩) (Nat.le_succ k) (by omega)

/-! ## The value or the container of a place -/

theorem lookup_setField {key : List UInt8} {fs : List (List UInt8 × JsonPointer n m)}
    (h : fs.lookup key = some old) (p : JsonPointer n m) :
    (setField key p fs).lookup key = some p := by
  induction fs with
  | nil => cases h
  | cons f fs ih =>
    rw [setField]
    by_cases hkey : f.1 = key
    · rw [if_pos hkey, List.lookup_cons_self]
    · have hbeq : (key == f.1) = false := by simpa using fun heq => hkey heq.symm
      rw [List.lookup_cons, hbeq] at h
      rw [if_neg hkey, List.lookup_cons, hbeq]
      exact ih h

/-- A place holds what it is made to hold. -/
theorem pointerAt_assign (h : s.pointerAt place = some old) (p : JsonPointer n m) :
    (s.assign p place).pointerAt place = some p := by
  cases place with
  | handle i =>
    obtain ⟨hi, -⟩ := List.getElem?_eq_some_iff.mp (Option.join_eq_some_iff.mp h)
    rw [assign, pointerAt, List.getElem?_set_self hi]
    rfl
  | field o key =>
    rw [assign, pointerAt, updateObject_self]
    exact lookup_setField h p
  | element o i =>
    obtain ⟨hi, -⟩ := List.getElem?_eq_some_iff.mp h
    rw [assign, pointerAt, updateObject_self]
    exact List.getElem?_set_self hi

theorem lookup_setField_of_ne {key key' : List UInt8} (hne : key' ≠ key)
    (fs : List (List UInt8 × JsonPointer n m)) (p : JsonPointer n m) :
    (setField key p fs).lookup key' = fs.lookup key' := by
  induction fs with
  | nil => rfl
  | cons f fs ih =>
    rw [setField]
    by_cases hkey : f.1 = key
    · have hbeq : (key' == f.1) = false := by simpa [hkey] using hne
      have hbeq' : (key' == key) = false := by simpa using hne
      rw [if_pos hkey, List.lookup_cons, List.lookup_cons, hbeq, hbeq']
    · rw [if_neg hkey, List.lookup_cons, List.lookup_cons, ih]

/-- The other places hold what they held. -/
theorem pointerAt_assign_of_ne {place' : JsonPlace n} (hne : place' ≠ place)
    (p : JsonPointer n m) : (s.assign p place).pointerAt place' = s.pointerAt place' := by
  cases place with
  | handle i =>
    cases place' with
    | handle j =>
      have hij : i ≠ j := fun heq => hne (congrArg JsonPlace.handle heq.symm)
      rw [assign, pointerAt, pointerAt, List.getElem?_set_ne hij]
    | field o key => rfl
    | element o i => rfl
  | field o key =>
    cases place' with
    | handle j => rfl
    | field o' key' =>
      rw [assign, pointerAt, pointerAt]
      rcases eq_or_ne o' o with rfl | ho
      · have hkey : key' ≠ key := fun heq => hne (congrArg (JsonPlace.field o') heq)
        rw [updateObject_self, lookup_setField_of_ne hkey]
      · rw [updateObject_of_ne ho]
    | element o' j =>
      rw [assign, pointerAt, pointerAt]
      rcases eq_or_ne o' o with rfl | ho
      · rw [updateObject_self]
      · rw [updateObject_of_ne ho]
  | element o i =>
    cases place' with
    | handle j => rfl
    | field o' key' =>
      rw [assign, pointerAt, pointerAt]
      rcases eq_or_ne o' o with rfl | ho
      · rw [updateObject_self]
      · rw [updateObject_of_ne ho]
    | element o' j =>
      rw [assign, pointerAt, pointerAt]
      rcases eq_or_ne o' o with rfl | ho
      · have hij : i ≠ j := fun heq => hne (congrArg (JsonPlace.element o') heq.symm)
        rw [updateObject_self, List.getElem?_set_ne hij]
      · rw [updateObject_of_ne ho]

theorem read_eq_ok : s.read place = .ok p ↔ s.pointerAt place = some p := by
  rw [read]
  split <;> simp_all

theorem put_eq_ok : s.put place p = .ok s' ↔
    (∃ old, s.pointerAt place = some old) ∧ s' = s.assign p place := by
  rw [put]
  constructor
  · intro h
    split at h
    case h_1 => cases h
    case h_2 old hat =>
      cases h
      exact ⟨⟨old, hat⟩, rfl⟩
  · rintro ⟨⟨old, hat⟩, rfl⟩
    rw [hat]

/-! ### Slots that stay as they are -/

theorem pointerAt_congr (hhandles : s'.handles = s.handles)
    (hobjects : ∀ o, (s'.objects o).object = (s.objects o).object ∧
      (s'.objects o).array = (s.objects o).array) (place : JsonPlace n) :
    s'.pointerAt place = s.pointerAt place := by
  cases place with
  | handle i => rw [pointerAt, pointerAt, hhandles]
  | field o key => rw [pointerAt, pointerAt, (hobjects o).1]
  | element o i => rw [pointerAt, pointerAt, (hobjects o).2]

/-- The number of holders is not read. -/
theorem pointerAt_recount (f : UInt32 → UInt32) (place : JsonPlace n) :
    (s.updateObject o fun cell =>
      { cell with referenceCount := f cell.referenceCount }).pointerAt place =
        s.pointerAt place := by
  refine pointerAt_congr ?_ (fun o' => ?_) place
  · rfl
  rcases eq_or_ne o' o with rfl | hne
  · rw [updateObject_self]
    exact ⟨rfl, rfl⟩
  · rw [updateObject_of_ne hne]
    exact ⟨rfl, rfl⟩

theorem pointerAt_acquireValue (hok : s.acquireValue = .ok (v, s')) (place : JsonPlace n) :
    s'.pointerAt place = s.pointerAt place := by
  obtain ⟨vs, -, rfl⟩ := acquireValue_eq_ok.mp hok
  exact pointerAt_congr rfl (fun _ => ⟨rfl, rfl⟩) place

theorem pointerAt_acquireObject (hok : s.acquireObject = .ok (o, s')) (place : JsonPlace n) :
    s'.pointerAt place = s.pointerAt place := by
  obtain ⟨os, -, rfl⟩ := acquireObject_eq_ok.mp hok
  exact pointerAt_recount (fun _ => 1) place

theorem pointerAt_copy (hok : s.copy p = .ok (q, s')) (place : JsonPlace n) :
    s'.pointerAt place = s.pointerAt place := by
  cases p with
  | null =>
    cases hok
    rfl
  | value v =>
    obtain ⟨⟨w, s₁⟩, hacquire, hrest⟩ := Except.bind_eq_ok.mp hok
    cases hrest
    exact pointerAt_acquireValue hacquire place
  | object o =>
    cases hok
    exact pointerAt_recount (· + 1) place

/-- A release empties containers, or leaves them. -/
theorem release_slots (s : JsonStore n m) (p : JsonPointer n m) :
    (s.release p).handles = s.handles ∧ ∀ o,
      ((s.release p).objects o).object = [] ∧ ((s.release p).objects o).array = [] ∨
        ((s.release p).objects o).object = (s.objects o).object ∧
          ((s.release p).objects o).array = (s.objects o).array := by
  refine release_rule (P := fun s' _ => s'.handles = s.handles ∧ ∀ o,
      (s'.objects o).object = [] ∧ (s'.objects o).array = [] ∨
        (s'.objects o).object = (s.objects o).object ∧ (s'.objects o).array = (s.objects o).array)
    (fun _ _ h => h) (fun _ _ _ h => h) ?_ ?_ ⟨rfl, fun _ => .inr ⟨rfl, rfl⟩⟩
  · rintro s' o ps - ⟨hhandles, hobjects⟩
    refine ⟨hhandles, fun o' => ?_⟩
    rcases eq_or_ne o' o with rfl | hne
    · have hself : (s'.clearObject o').objects o' = JsonObjectCell.cleared :=
        Function.update_self o' _ _
      rw [hself]
      exact .inl ⟨rfl, rfl⟩
    · have hother : (s'.clearObject o).objects o' = s'.objects o' := Function.update_of_ne hne _ _
      rw [hother]
      exact hobjects o'
  · rintro s' o ps - ⟨hhandles, hobjects⟩
    refine ⟨hhandles, fun o' => ?_⟩
    rcases eq_or_ne o' o with rfl | hne
    · rw [updateObject_self]
      exact hobjects o'
    · rw [updateObject_of_ne hne]
      exact hobjects o'

/-- **A slot that outlives a release** holds what it held. -/
theorem pointerAt_release (s : JsonStore n m) (p : JsonPointer n m) (place : JsonPlace n) :
    (s.release p).pointerAt place = none ∨ (s.release p).pointerAt place = s.pointerAt place := by
  obtain ⟨hhandles, hobjects⟩ := release_slots s p
  cases place with
  | handle i =>
    refine .inr ?_
    rw [pointerAt, pointerAt, hhandles]
  | field o key =>
    rw [pointerAt, pointerAt]
    exact (hobjects o).imp (fun h => by rw [h.1]; rfl) (fun h => by rw [h.1])
  | element o i =>
    rw [pointerAt, pointerAt]
    exact (hobjects o).imp (fun h => by rw [h.2]; rfl) (fun h => by rw [h.2])

/-- **A place that is emptied** gives up what it held. -/
theorem Within.empty (h : Within R s₀ k s ts) (hhas : R.Has place)
    (hat : s.pointerAt place = some p) :
    Within R s₀ k ((s.assign .null place).release p) ts :=
  ((Within.cons_null.mpr h).assign hhas hat).release

/-- What an emptied place holds. -/
theorem pointerAt_empty (hat : s.pointerAt place = some p)
    (hold : ((s.assign .null place).release p).pointerAt place = some old) : old = .null := by
  rcases pointerAt_release (s.assign .null place) p place with hnone | hsame
  · rw [hnone] at hold
    cases hold
  · rw [hsame, pointerAt_assign hat] at hold
    exact (Option.some.inj hold).symm

/-- **A place that holds nothing is filled** with what was in flight. -/
theorem Within.fill (h : Within R s₀ k s (p :: ts)) (hhas : R.Has place)
    (hput : s.put place p = .ok s') (hnull : ∀ old, s.pointerAt place = some old → old = .null) :
    Within R s₀ k s' ts ∧ s'.pointerAt place = some p := by
  obtain ⟨⟨old, hat⟩, rfl⟩ := put_eq_ok.mp hput
  have hassign := h.assign hhas hat
  rw [hnull old hat] at hassign
  exact ⟨Within.cons_null.mp hassign, pointerAt_assign hat p⟩

/-- `check_create_json_value` leaves a value of the region at the place. -/
theorem Within.checkCreateValue (h : Within R s₀ k s ts) (hhas : R.Has place)
    (hok : s.checkCreateValue place = .ok (v, s')) :
    Within R s₀ k s' ts ∧ s'.pointerAt place = some (.value v) := by
  obtain ⟨p, hread, hrest⟩ := Except.bind_eq_ok.mp hok
  rw [read_eq_ok] at hread
  split at hrest
  case h_1 w =>
    cases hrest
    exact ⟨h, hread⟩
  case h_2 =>
    obtain ⟨⟨w, s₁⟩, hacquire, hrest⟩ := Except.bind_eq_ok.mp hrest
    obtain ⟨s₂, hput, hrest⟩ := Except.bind_eq_ok.mp hrest
    cases hrest
    have hs₁ := ((h.empty hhas hread).acquireValue hacquire).1
    refine hs₁.fill hhas hput fun old hold => pointerAt_empty hread ?_
    rwa [pointerAt_acquireValue hacquire] at hold

/-- `check_create_json_object` leaves a container of the region at the place. -/
theorem Within.checkCreateObject (h : Within R s₀ k s ts) (hhas : R.Has place)
    (hok : s.checkCreateObject place = .ok (o, s')) :
    Within R s₀ k s' ts ∧ s'.pointerAt place = some (.object o) := by
  obtain ⟨p, hread, hrest⟩ := Except.bind_eq_ok.mp hok
  rw [read_eq_ok] at hread
  split at hrest
  case h_1 o' =>
    cases hrest
    exact ⟨h, hread⟩
  case h_2 =>
    obtain ⟨⟨o', s₁⟩, hacquire, hrest⟩ := Except.bind_eq_ok.mp hrest
    obtain ⟨s₂, hput, hrest⟩ := Except.bind_eq_ok.mp hrest
    cases hrest
    have hs₁ := ((h.empty hhas hread).acquireObject hacquire).1
    refine hs₁.fill hhas hput fun old hold => pointerAt_empty hread ?_
    rwa [pointerAt_acquireObject hacquire] at hold

/-! ## Calls on a container -/

theorem Within.emplace (h : Within R s₀ k s ts) (ho : R.items (.object o))
    (hnot : o ∉ s.availableObjects) (key : List UInt8) : Within R s₀ k (s.emplace o key) ts := by
  refine h.updateObject ho hnot rfl fun q hq => ?_
  simp only [count_pointers]
  split_ifs with hkey
  · rfl
  · rw [List.map_append, List.count_append, List.map_singleton, count_singleton_of_ne hq.symm,
      Nat.add_zero]

theorem count_replicate_null (i : ℕ) (hq : q ≠ .null) :
    (List.replicate i (JsonPointer.null : JsonPointer n m)).count q = 0 :=
  List.count_eq_zero.mpr fun hmem => hq (List.eq_of_mem_replicate hmem)

theorem Within.growTo (h : Within R s₀ k s ts) (ho : R.items (.object o))
    (hnot : o ∉ s.availableObjects) (index : ℕ) : Within R s₀ k (s.growTo o index) ts := by
  refine h.updateObject ho hnot rfl fun q hq => ?_
  simp only [count_pointers, List.count_append, count_replicate_null _ hq, Nat.add_zero]

/-- The elements that are cut off are released. -/
theorem Within.setSize (h : Within R s₀ k s ts) (ho : R.items (.object o))
    (hnot : o ∉ s.availableObjects) (size : ℕ) : Within R s₀ k (s.setSize o size) ts := by
  refine Within.releases (h.updateObject ho hnot rfl fun q hq => ?_)
  have hsplit := congrArg (List.count q) (List.take_append_drop size (s.objects o).array)
  rw [List.count_append] at hsplit
  simp only [count_pointers, List.count_append, count_replicate_null _ hq, Nat.add_zero]
  omega

theorem Within.removeField (h : Within R s₀ k s ts) (ho : R.items (.object o))
    (hnot : o ∉ s.availableObjects) (key : List UInt8) :
    Within R s₀ k (s.removeField o key) ts := by
  rw [JsonStore.removeField]
  split
  case h_1 hlookup =>
    refine h.updateObject ho hnot rfl fun q _ => ?_
    simp only [count_pointers, eraseField_of_lookup_none hlookup]
  case h_2 p hlookup =>
    refine (h.updateObject ho hnot rfl fun q _ => ?_ : Within R s₀ k _ (p :: ts)).release
    have herase := count_eraseField hlookup q
    simp only [count_pointers, List.count_cons, List.count_nil] at herase ⊢
    omega

/-- The array of a container changes its order. -/
theorem Within.updateArray {f : List (JsonPointer n m) → List (JsonPointer n m)}
    (h : Within R s₀ k s ts) (ho : R.items (.object o)) (hnot : o ∉ s.availableObjects)
    (hperm : (f (s.objects o).array).Perm (s.objects o).array) :
    Within R s₀ k (s.updateArray o f) ts := by
  refine h.updateObject ho hnot rfl fun q _ => ?_
  simp only [count_pointers, hperm.count_eq]

/-- What was in flight is pushed to an array. -/
theorem Within.push (h : Within R s₀ k s (p :: ts)) (ho : R.items (.object o))
    (hnot : o ∉ s.availableObjects) : Within R s₀ k (s.updateArray o (· ++ [p])) ts := by
  refine h.updateObject ho hnot rfl fun q _ => ?_
  simp only [count_pointers, List.count_append, List.count_cons, List.count_nil]
  omega

theorem filterMap_range_getElem? {α : Type*} (l : List α) :
    (List.range l.length).filterMap (fun i => l[i]?) = l := by
  induction l with
  | nil => rfl
  | cons a l ih =>
    rw [List.length_cons, List.range_succ_eq_map, List.filterMap_cons, List.filterMap_map]
    exact congrArg (a :: ·) ih

/-- A sort keeps what an array holds. -/
theorem sorted_perm (order : List ℕ) (array : List (JsonPointer n m)) :
    (sorted order array).Perm array := by
  rw [sorted]
  split_ifs with hperm
  · exact (hperm.filterMap _).trans (.of_eq (filterMap_range_getElem? array))
  · exact .refl array

/-- A pair that is added is a copy, in its container or destroyed. -/
theorem Within.addPair {i : ℕ} {pair : List UInt8 × JsonPlace n} (h : Within R s₀ (k + 1) s ts)
    (hi : R.handles i) (hat : s.pointerAt (.handle i) = some (.object o))
    (hp : ∀ p, s.pointerAt pair.2 = some p → Accepts R p) (hok : s.addPair o pair = .ok s') :
    Within R s₀ k s' ts ∧ s'.pointerAt (.handle i) = some (.object o) := by
  obtain ⟨p, hread, hrest⟩ := Except.bind_eq_ok.mp hok
  rw [read_eq_ok] at hread
  obtain ⟨⟨q, s₁⟩, hcopy, hrest⟩ := Except.bind_eq_ok.mp hrest
  have hs₁ := h.copy hread (hp p hread) hcopy
  rw [← pointerAt_copy hcopy] at hat
  have ho := hs₁.ofHandle i _ hi hat
  have hnot := hs₁.not_available hat
  dsimp only at hrest
  split at hrest
  case isTrue hkey =>
    cases hrest
    refine ⟨(hs₁.updateObject ho hnot rfl fun _ _ => rfl).release, ?_⟩
    rw [pointerAt, (release_slots _ q).1]
    exact hat
  case isFalse hkey =>
    cases hrest
    refine ⟨hs₁.updateObject ho hnot rfl fun q' _ => ?_, hat⟩
    simp only [count_pointers, List.map_append, List.map_cons, List.map_nil, List.count_append,
      List.count_cons, List.count_nil]
    omega

end JsonStore

end TradingEngine
