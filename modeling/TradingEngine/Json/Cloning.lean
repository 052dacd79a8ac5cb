import TradingEngine.Json.Confinement

/-!
# Json/Cloning — what a `Json` denotes, and what a deep clone is

`tree` unfolds a `Json` to a depth: two denote the same exactly when they do to every depth.  Both
containers of an object are in its tree, also the one that its kind hides.  A deep clone is made of
free items and denotes what its source denotes (`deepClone_spec`).
-/

namespace TradingEngine

open JsonObjectCell

/-- A `Json`, unfolded. -/
inductive JsonTree
  | null
  | scalar (x : JsonScalar)
  | container (isArray : Bool) (object : List (List UInt8 × JsonTree)) (array : List JsonTree)
  | deeper

variable {n m : ℕ}

namespace JsonStore

/-- What a `Json` denotes, down to a depth. -/
def tree : ℕ → JsonStore n m → JsonPointer n m → JsonTree
  | _, _, .null => .null
  | _, s, .value v => .scalar (s.values v).scalar
  | 0, _, .object _ => .deeper
  | depth + 1, s, .object o => .container (s.objects o).isArray
      ((s.objects o).object.map fun f => (f.1, tree depth s f.2))
      ((s.objects o).array.map (tree depth s))

variable {R : JsonRegion n m} {s₀ s s' s'' : JsonStore n m} {k : ℕ}
  {ts : List (JsonPointer n m)} {p q : JsonPointer n m} {o : Fin n} {v : Fin m}

@[simp] theorem tree_null (depth : ℕ) : tree depth s .null = .null := by cases depth <;> rfl

@[simp] theorem tree_value (depth : ℕ) : tree depth s (.value v) = .scalar (s.values v).scalar := by
  cases depth <;> rfl

theorem mem_pointers_of_object {f : List UInt8 × JsonPointer n m} (h : f ∈ (s.objects o).object) :
    f.2 ∈ (s.objects o).pointers :=
  List.mem_append_left _ (List.mem_map_of_mem h)

theorem mem_pointers_of_array (h : p ∈ (s.objects o).array) : p ∈ (s.objects o).pointers :=
  List.mem_append_right _ h

/-- **What a `Json` denotes depends on the items below it.** -/
theorem tree_congr {K : JsonPointer n m → Prop}
    (hclosed : ∀ o, K (.object o) → ∀ p ∈ (s.objects o).pointers, K p)
    (hobjects : ∀ o, K (.object o) → (s'.objects o).isArray = (s.objects o).isArray ∧
      (s'.objects o).object = (s.objects o).object ∧ (s'.objects o).array = (s.objects o).array)
    (hvalues : ∀ v, K (.value v) → (s'.values v).scalar = (s.values v).scalar) (depth : ℕ) :
    ∀ {p}, K p → tree depth s' p = tree depth s p := by
  induction depth with
  | zero =>
    intro p hp
    cases p with
    | null => rfl
    | value v => rw [tree_value, tree_value, hvalues v hp]
    | object o => rfl
  | succ depth ih =>
    intro p hp
    cases p with
    | null => rfl
    | value v => rw [tree_value, tree_value, hvalues v hp]
    | object o =>
      obtain ⟨hkind, hobject, harray⟩ := hobjects o hp
      rw [tree, tree, hkind, hobject, harray]
      congr 1
      · refine List.map_congr_left fun f hf => ?_
        rw [ih (hclosed o hp f.2 (mem_pointers_of_object hf))]
      · exact List.map_congr_left fun q hq => ih (hclosed o hp q (mem_pointers_of_array hq))

/-! ## Items in use -/

/-- An item that is in no pool. -/
def InUse (s : JsonStore n m) : JsonPointer n m → Prop
  | .null => True
  | .value v => v ∉ s.availableValues
  | .object o => o ∉ s.availableObjects

/-- What is held is in use. -/
theorem Owned.inUse (h : Owned s ts) (hp : p = .null ∨ 0 < s.holders p + ts.count p) :
    s.InUse p := by
  rcases hp with rfl | hp
  · trivial
  · cases p with
    | null => trivial
    | value v => exact h.not_mem_values_of_pos hp
    | object o => exact h.not_mem_of_pos hp

theorem Owned.inUse_inFlight (h : Owned s ts) (hp : p ∈ ts) : s.InUse p :=
  h.inUse (.inr (Nat.add_pos_right _ (List.count_pos_iff.mpr hp)))

theorem Owned.inUse_at {place : JsonPlace n} (h : Owned s ts) (hat : s.pointerAt place = some p) :
    s.InUse p := by
  by_cases hnull : p = .null
  · exact h.inUse (.inl hnull)
  · exact h.inUse (.inr (Nat.add_pos_left (holders_pos hat hnull) _))

/-- A slot of a container holds its item. -/
theorem holders_pos_of_slot (hp : p ∈ (s.objects o).pointers) : 0 < s.holders p := by
  have hsum := Finset.add_sum_erase Finset.univ (fun o => (s.objects o).pointers.count p)
    (Finset.mem_univ o)
  have hpos := List.count_pos_iff.mpr hp
  rw [holders]
  omega

theorem Owned.inUse_slot (h : Owned s ts) (hp : p ∈ (s.objects o).pointers) : s.InUse p :=
  h.inUse (.inr (Nat.add_pos_left (holders_pos_of_slot hp) _))

/-- **Only free items have changed**, and they came out of their pools. -/
structure Extends (s s' : JsonStore n m) : Prop where
  handles : s'.handles = s.handles
  objects : ∀ o, o ∉ s.availableObjects → s'.objects o = s.objects o
  values : ∀ v, v ∉ s.availableValues → s'.values v = s.values v
  availableObjects : ∀ o ∈ s'.availableObjects, o ∈ s.availableObjects
  availableValues : ∀ v ∈ s'.availableValues, v ∈ s.availableValues

theorem Extends.refl (s : JsonStore n m) : Extends s s :=
  ⟨rfl, fun _ _ => rfl, fun _ _ => rfl, fun _ h => h, fun _ h => h⟩

theorem Extends.trans (h : Extends s s') (h' : Extends s' s'') : Extends s s'' where
  handles := h'.handles.trans h.handles
  objects o ho := (h'.objects o fun ho' => ho (h.availableObjects o ho')).trans (h.objects o ho)
  values v hv := (h'.values v fun hv' => hv (h.availableValues v hv')).trans (h.values v hv)
  availableObjects o ho := h.availableObjects o (h'.availableObjects o ho)
  availableValues v hv := h.availableValues v (h'.availableValues v hv)

theorem Extends.inUse (h : Extends s s') (hp : s.InUse p) : s'.InUse p := by
  cases p with
  | null => trivial
  | value v => exact fun hv => hp (h.availableValues v hv)
  | object o => exact fun ho => hp (h.availableObjects o ho)

/-- What was in use denotes what it denoted. -/
theorem Extends.tree (h : Extends s s') (hs : Owned s ts) (hp : s.InUse p) (depth : ℕ) :
    tree depth s' p = tree depth s p := by
  refine tree_congr (K := s.InUse) (fun o _ q hq => hs.inUse_slot hq) (fun o ho => ?_)
    (fun v hv => by rw [h.values v hv]) depth hp
  rw [h.objects o ho]
  exact ⟨rfl, rfl, rfl⟩

theorem Extends.acquireValue (hok : s.acquireValue = .ok (v, s')) :
    Extends s s' ∧ v ∈ s.availableValues := by
  obtain ⟨vs, hfree, rfl⟩ := acquireValue_eq_ok.mp hok
  refine ⟨⟨rfl, fun _ _ => rfl, fun _ _ => rfl, fun _ h => h, fun w hw => ?_⟩, ?_⟩
  · exact hfree ▸ List.mem_cons_of_mem v hw
  · exact hfree ▸ List.mem_cons_self

theorem Extends.acquireObject (hok : s.acquireObject = .ok (o, s')) :
    Extends s s' ∧ o ∈ s.availableObjects := by
  obtain ⟨os, hfree, rfl⟩ := acquireObject_eq_ok.mp hok
  have hmem : o ∈ s.availableObjects := hfree ▸ List.mem_cons_self
  refine ⟨⟨rfl, fun o' ho' => ?_, fun _ _ => rfl, fun o' ho' => ?_, fun _ h => h⟩, hmem⟩
  · have hne : o' ≠ o := fun heq => ho' (heq ▸ hmem)
    rw [updateObject_of_ne hne]
  · exact hfree ▸ List.mem_cons_of_mem o ho'

/-- What came out of a pool may still be changed. -/
theorem Extends.updateValue (h : Extends s s') (hv : v ∈ s.availableValues)
    (g : JsonValueCell → JsonValueCell) : Extends s (s'.updateValue v g) :=
  { h with
    values := fun w hw => by
      have hne : w ≠ v := fun heq => hw (heq ▸ hv)
      rw [updateValue_of_ne hne]
      exact h.values w hw }

theorem Extends.updateObject (h : Extends s s') (ho : o ∈ s.availableObjects)
    (f : JsonObjectCell n m → JsonObjectCell n m) : Extends s (s'.updateObject o f) :=
  { h with
    objects := fun o' ho' => by
      have hne : o' ≠ o := fun heq => ho' (heq ▸ ho)
      rw [updateObject_of_ne hne]
      exact h.objects o' ho' }

/-! ## The clone -/

/-- **What a clone of an item is**: something in flight that is made of free items and denotes what
the item denotes. -/
structure CloneSpec (R : JsonRegion n m) (s₀ : JsonStore n m) (k : ℕ) (s : JsonStore n m)
    (ts ps qs : List (JsonPointer n m)) (s' : JsonStore n m) : Prop where
  within : Within R s₀ k s' (qs ++ ts)
  fresh : Extends s s'
  same : ∀ depth, qs.map (tree depth s') = ps.map (tree depth s)

theorem copyValue_spec (h : Within R s₀ k s ts) (hv : R.quoted → R.items (.value v))
    (hok : s.copy (.value v) = .ok (q, s')) : CloneSpec R s₀ k s ts [.value v] [q] s' := by
  have hwithin := h.copyValue hv hok
  obtain ⟨⟨w, s₁⟩, hacquire, hrest⟩ := Except.bind_eq_ok.mp hok
  cases hrest
  obtain ⟨hextends, hw⟩ := Extends.acquireValue hacquire
  refine ⟨hwithin, hextends.updateValue hw _, fun depth => ?_⟩
  rw [List.map_singleton, List.map_singleton, tree_value, tree_value, updateValue_self]

/-- One clone after the other. -/
theorem cloneAll_spec {clone : JsonStore n m → JsonPointer n m →
      Except JsonFailure (JsonPointer n m × JsonStore n m)}
    (hclone : ∀ {s s' : JsonStore n m} {ts : List (JsonPointer n m)} {p q : JsonPointer n m},
      Within R s₀ k s ts → s.InUse p → (R.quoted → R.items p) →
      clone s p = .ok (q, s') → CloneSpec R s₀ k s ts [p] [q] s')
    {ps qs : List (JsonPointer n m)} (h : Within R s₀ k s ts) (hps : ∀ p ∈ ps, s.InUse p)
    (hitems : R.quoted → ∀ p ∈ ps, R.items p) (hok : cloneAll clone s ps = .ok (qs, s')) :
    CloneSpec R s₀ k s ts ps qs s' := by
  induction ps generalizing s ts qs with
  | nil =>
    cases hok
    exact ⟨h, Extends.refl _, fun _ => rfl⟩
  | cons p ps ih =>
    obtain ⟨⟨q, s₁⟩, hone, hrest⟩ := Except.bind_eq_ok.mp hok
    obtain ⟨⟨qs', s₂⟩, hall, hrest⟩ := Except.bind_eq_ok.mp hrest
    cases hrest
    obtain ⟨hp, hps⟩ := List.forall_mem_cons.mp hps
    have hfirst := hclone h hp (fun hR => hitems hR p List.mem_cons_self) hone
    have hothers := ih hfirst.within (fun r hr => hfirst.fresh.inUse (hps r hr))
      (fun hR r hr => hitems hR r (List.mem_cons_of_mem p hr)) hall
    refine ⟨?_, hfirst.fresh.trans hothers.fresh, fun depth => ?_⟩
    · exact hothers.within.perm List.perm_middle
    · have hq : tree depth s' q = tree depth s₁ q :=
        hothers.fresh.tree hfirst.within.owned
          (hfirst.within.owned.inUse_inFlight List.mem_cons_self) depth
      have hsame := hfirst.same depth
      rw [List.map_singleton, List.map_singleton] at hsame
      rw [List.map_cons, List.map_cons, hq, List.cons.inj hsame |>.1, hothers.same depth]
      congr 1
      exact List.map_congr_left fun r hr => hfirst.fresh.tree h.owned (hps r hr) depth

/-- No slot of a container holds an item that is only in flight. -/
theorem Owned.not_mem_pointers (h : Owned s ts) (hcount : (s.objects o).referenceCount = 1)
    (hts : .object o ∈ ts) (o' : Fin n) : .object o ∉ (s.objects o').pointers := by
  intro hmem
  have hpos := holders_pos_of_slot hmem
  have hin := List.count_pos_iff.mpr hts
  have hsum := h.count o
  rw [hcount] at hsum
  have hnat : (1 : UInt32).toNat = 1 := rfl
  omega

/-- The container of a clone is filled with the clones of the slots. -/
theorem fillClone_spec {s₁ s₂ s₃ : JsonStore n m} {clone : Fin n}
    {array fields : List (JsonPointer n m)} (h : Within R s₀ k s ts)
    (hclone : clone ∉ s₁.availableObjects)
    (hempty : s₁.objects clone = { JsonObjectCell.cleared with referenceCount := 1 })
    (hfresh₁ : Extends s s₁) (hfree : clone ∈ s.availableObjects)
    (harray : CloneSpec R s₀ k s₁ (.object clone :: ts) (s.objects o).array array s₂)
    (hfields : CloneSpec R s₀ k s₂ (array ++ .object clone :: ts)
      ((s.objects o).object.map (·.2)) fields s₃) :
    CloneSpec R s₀ k s ts [.object o] [.object clone] (s₃.updateObject clone fun cell =>
      { cell with
        isArray := (s.objects o).isArray
        object := ((s.objects o).object.map (·.1)).zip fields
        array := array }) := by
  have hwithin := hfields.within
  have hcell : s₃.objects clone = { JsonObjectCell.cleared with referenceCount := 1 } := by
    rw [hfields.fresh.objects clone fun hin => hclone (harray.fresh.availableObjects clone hin),
      harray.fresh.objects clone hclone, hempty]
  have hin : (.object clone : JsonPointer n m) ∈ fields ++ (array ++ .object clone :: ts) := by simp
  have hlength : fields.length = (s.objects o).object.length := by
    have hsame := congrArg List.length (hfields.same 0)
    rw [List.length_map, List.length_map, List.length_map] at hsame
    exact hsame
  have hzip : (((s.objects o).object.map (·.1)).zip fields).map (·.2) = fields :=
    List.map_snd_zip (by rw [List.length_map, hlength])
  refine ⟨?_, ?_, fun depth => ?_⟩
  · refine hwithin.updateObject (hwithin.inFlight _ hin) (hwithin.owned.inUse_inFlight hin) rfl
      fun q _ => ?_
    rw [hcell]
    simp only [count_pointers, hzip, cleared, List.count_append, List.map_nil, List.count_nil,
      List.singleton_append]
    omega
  · exact ((hfresh₁.trans harray.fresh).trans hfields.fresh).updateObject hfree _
  · cases depth with
    | zero => rfl
    | succ depth =>
      have hone : (s₃.objects clone).referenceCount = 1 := by rw [hcell]
      have hnot : ∀ r ∈ fields ++ array, r ≠ .object clone := by
        rintro r hr rfl
        have hcount := hwithin.owned.count clone
        rw [hone, ← List.append_assoc, List.count_append, List.count_cons_self] at hcount
        have hpos := List.count_pos_iff.mpr hr
        have hnat : (1 : UInt32).toNat = 1 := rfl
        omega
      -- no clone of a slot reaches the container that is filled
      have hfill : ∀ f, ∀ r ∈ fields ++ array,
          tree depth (s₃.updateObject clone f) r = tree depth s₃ r := by
        intro f r hr
        refine tree_congr (K := fun r => r ≠ .object clone) (fun o' _ q hq heq => ?_)
          (fun o' ho' => ?_) (fun _ _ => ?_) depth (hnot r hr)
        · exact hwithin.owned.not_mem_pointers hone hin o' (heq ▸ hq)
        · have hne : o' ≠ clone := fun heq => ho' (congrArg JsonPointer.object heq)
          rw [updateObject_of_ne hne]
          exact ⟨rfl, rfl, rfl⟩
        · rfl
      have harrayTrees : array.map (tree depth s₃) = (s.objects o).array.map (tree depth s) := by
        rw [← List.map_congr_left fun r hr => hfresh₁.tree h.owned
          (h.owned.inUse_slot (mem_pointers_of_array hr)) depth, ← harray.same depth]
        exact List.map_congr_left fun r hr => hfields.fresh.tree harray.within.owned
          (harray.within.owned.inUse_inFlight (List.mem_append_left _ hr)) depth
      have hfieldTrees : fields.map (tree depth s₃) =
          ((s.objects o).object.map (·.2)).map (tree depth s) := by
        rw [hfields.same depth]
        refine List.map_congr_left fun r hr => (hfresh₁.trans harray.fresh).tree h.owned ?_ depth
        exact h.owned.inUse_slot (List.mem_append_left _ hr)
      rw [List.map_singleton, List.map_singleton, tree, tree, updateObject_self]
      congr 2
      · have hmap : ∀ g : JsonPointer n m → JsonTree, (((s.objects o).object.map (·.1)).zip
            fields).map (fun f => (f.1, g f.2)) = ((s.objects o).object.map (·.1)).zip
              (fields.map g) := fun g => List.zip_map_right.symm
        rw [hmap, List.map_congr_left fun r hr => hfill _ r (List.mem_append_left _ hr),
          hfieldTrees, List.map_map, List.zip_map']
        rfl
      · rw [List.map_congr_left fun r hr => hfill _ r (List.mem_append_right _ hr), harrayTrees]

/-- **A deep clone denotes what its source denotes.**  The induction is on the fuel; a container is
taken out of the pool before its slots are cloned, and filled when they are. -/
theorem deepClone_spec (fuel : ℕ) : ∀ {s s' : JsonStore n m} {ts : List (JsonPointer n m)}
    {p q : JsonPointer n m}, Within R s₀ k s ts → s.InUse p → (R.quoted → R.items p) →
      deepClone fuel s p = .ok (q, s') → CloneSpec R s₀ k s ts [p] [q] s' := by
  induction fuel with
  | zero =>
    intro s s' ts p q h hp hitems hok
    cases p with
    | null =>
      cases hok
      exact ⟨Within.cons_null.mpr h, Extends.refl s, fun _ => by simp⟩
    | value v => exact copyValue_spec h hitems hok
    | object o => cases hok
  | succ fuel ih =>
    intro s s' ts p q h hp hitems hok
    cases p with
    | null =>
      cases hok
      exact ⟨Within.cons_null.mpr h, Extends.refl s, fun _ => by simp⟩
    | value v => exact copyValue_spec h hitems hok
    | object o =>
      obtain ⟨⟨clone, s₁⟩, hacquire, hrest⟩ := Except.bind_eq_ok.mp hok
      obtain ⟨⟨array, s₂⟩, harray, hrest⟩ := Except.bind_eq_ok.mp hrest
      obtain ⟨⟨fields, s₃⟩, hfields, hrest⟩ := Except.bind_eq_ok.mp hrest
      cases hrest
      obtain ⟨hs₁, hclone, hempty⟩ := h.acquireObject hacquire
      obtain ⟨hfresh₁, hfree⟩ := Extends.acquireObject hacquire
      have ho₁ : s₁.objects o = s.objects o := hfresh₁.objects o hp
      have hslots : ∀ r ∈ (s.objects o).pointers, s.InUse r ∧ (R.quoted → R.items r) :=
        fun r hr => ⟨h.owned.inUse_slot hr, fun hR => h.ofSlot o (hitems hR) r hr⟩
      have hsources : ∀ r ∈ (s.objects o).object.map (·.2), r ∈ (s.objects o).pointers :=
        fun r hr => List.mem_append_left _ hr
      rw [ho₁] at harray
      have harrays := cloneAll_spec ih hs₁
        (fun r hr => hfresh₁.inUse (hslots r (mem_pointers_of_array hr)).1)
        (fun hR r hr => (hslots r (mem_pointers_of_array hr)).2 hR) harray
      have hfresh₂ := hfresh₁.trans harrays.fresh
      rw [hfresh₂.objects o hp] at hfields
      have hobjects := cloneAll_spec ih harrays.within
        (fun r hr => hfresh₂.inUse (hslots r (hsources r hr)).1)
        (fun hR r hr => (hslots r (hsources r hr)).2 hR) hfields
      have hfresh₃ := hfresh₂.trans hobjects.fresh
      rw [hfresh₃.objects o hp]
      exact fillClone_spec h hclone hempty hfresh₁ hfree harrays hobjects

end JsonStore

end TradingEngine
