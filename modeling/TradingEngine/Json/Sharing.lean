import TradingEngine.Json.Progress

/-!
# Json/Sharing — what two sides of a program share

Each handle of a program belongs to one of two sides, and each item in use to the side whose handles
lead to it.  As long as no operation writes on both sides, or puts a container of the one into the
other, what an operation does on its side is not seen on the other (`Sided.step`).  A deep clone
begins a side of its own.
-/

namespace TradingEngine

variable {n m : ℕ}

namespace JsonStore

variable {s s' s₁ s₂ : JsonStore n m} {side side₁ : ℕ → Bool} {x : Bool}
  {op : JsonOperation n} {p q : JsonPointer n m} {place source : JsonPlace n} {o : Fin n} {i : ℕ}

/-! ## Runs -/

/-- The states that operations with a property lead to. -/
inductive Runs (P : JsonStore n m → JsonOperation n → Prop) (s : JsonStore n m) :
    JsonStore n m → Prop
  | nil : Runs P s s
  | step {s₁ s₂ : JsonStore n m} {op : JsonOperation n} :
    Runs P s s₁ → P s₁ op → s₁.perform op = .ok s₂ → Runs P s s₂

theorem sound_start (n m : ℕ) : Sound (start n m) where
  owned := by
    have hholders : ∀ q : JsonPointer n m, (start n m).holders q = 0 := fun q =>
      (Nat.zero_add _).trans (Finset.sum_eq_zero fun o _ => rfl)
    refine ⟨fun o => ?_, fun o => ?_, List.nodup_finRange n, fun o _ => rfl, fun v => ?_,
      List.nodup_finRange m⟩
    · rw [hholders, List.count_nil]
      rfl
    · exact iff_of_true (List.mem_finRange o) rfl
    · rw [hholders, List.count_nil]
      exact (if_pos (List.mem_finRange v)).symm
  pool := fun _ _ _ => rfl

/-- **An operation keeps the counts right.** -/
theorem Sound.step (hs : Sound s) (hfits : s.Fits op) (hok : s.perform op = .ok s') :
    Sound s' := by
  have hallows : Allows (everything n m) s op := {
    written := fun place _ => by cases place <;> trivial
    copied := fun place _ => .inl (by cases place <;> trivial)
    cloned := fun hquoted => hquoted.elim
    quoting := fun hquoted => hquoted.elim }
  have hwithin := (hs.fits hfits).perform hallows hok
  exact ⟨hwithin.owned, fun hzero v hv => hwithin.quoted hzero v trivial (.inr hv)⟩

theorem Sound.runs {P : JsonStore n m → JsonOperation n → Prop} (hs : Sound s)
    (hP : ∀ s op, P s op → s.Fits op) (hrun : Runs P s s') : Sound s' := by
  induction hrun with
  | nil => exact hs
  | step _ hop hok ih => exact ih.step (hP _ _ hop) hok

/-! ## Sides -/

/-- **The two sides share no item.** -/
structure Sided (s : JsonStore n m) (side : ℕ → Bool) (colour : JsonPointer n m → Bool) :
    Prop where
  handles : ∀ i p, s.pointerAt (.handle i) = some p → p ≠ .null → colour p = side i
  slots : ∀ o p, p ∈ (s.objects o).pointers → p ≠ .null → colour p = colour (.object o)

/-- A place of a side: a handle, or a slot of a container that a handle leads to. -/
def On (s : JsonStore n m) (side : ℕ → Bool) (x : Bool) : JsonPlace n → Prop
  | .handle i => side i = x
  | .field o _ | .element o _ => ∃ i, side i = x ∧ s.Reaches i (.object o)

/-- **An operation is on one side**: what it changes is, and a container that it copies. -/
structure OneSided (s : JsonStore n m) (side : ℕ → Bool) (x : Bool) (op : JsonOperation n) :
    Prop where
  written : ∀ place ∈ op.written, s.On side x place
  copied : ∀ place ∈ op.copied, s.On side x place ∨ ∀ o, s.pointerAt place ≠ some (.object o)

/-- A handle that is made belongs to the side it is made on. -/
def sideAfter (s : JsonStore n m) (side : ℕ → Bool) (x : Bool) (i : ℕ) : Bool :=
  if i < s.handles.length then side i else x

/-- What a side can use: its own, and what is free. -/
def sideRegion (s : JsonStore n m) (side : ℕ → Bool) (colour : JsonPointer n m → Bool) (x : Bool)
    (quoted : Prop) : JsonRegion n m where
  items p := p = .null ∨ ¬ s.InUse p ∨ colour p = x
  handles i := s.handles.length ≤ i ∨ side i = x
  quoted := quoted

variable {colour : JsonPointer n m → Bool} {quoted : Prop}

theorem Sided.colour_under (h : Sided s side colour) (hp : colour p = x) (hq : q ≠ .null)
    (hunder : s.Under p q) : colour q = x := by
  induction hunder with
  | self => exact hp
  | slot _ hslot ih => exact (h.slots _ _ hslot hq).trans (ih (by rintro ⟨⟩))

theorem Sided.colour_reaches (h : Sided s side colour) (hq : q ≠ .null)
    (hreach : s.Reaches i q) : colour q = side i := by
  obtain ⟨p, hat, hunder⟩ := hreach
  by_cases hp : p = .null
  · subst hp
    exact absurd (hunder.eq_self (by rintro _ ⟨⟩)) hq
  · exact h.colour_under (h.handles i p hat hp) hq hunder

theorem Sided.has_of_on (h : Sided s side colour) (hon : s.On side x place) :
    (sideRegion s side colour x quoted).Has place := by
  cases place with
  | handle i => exact .inr hon
  | field o key =>
    obtain ⟨i, hi, hreach⟩ := hon
    exact .inr (.inr ((h.colour_reaches (by rintro ⟨⟩) hreach).trans hi))
  | element o j =>
    obtain ⟨i, hi, hreach⟩ := hon
    exact .inr (.inr ((h.colour_reaches (by rintro ⟨⟩) hreach).trans hi))

/-- **A side is a region.** -/
theorem Sided.within (h : Sided s side colour) (hs : Sound s) (hfits : s.Fits op)
    (hquoted : quoted → s.unquotedReleases = 0 → ∀ v, s.InUse (.value v) → colour (.value v) = x →
      (s.values v).isStringFormat = true) :
    Within (sideRegion s side colour x quoted) s op.copied.length s [] := by
  have hfit := hs.fits hfits
  refine ⟨hs.owned, fun _ hp => absurd hp List.not_mem_nil, hfit.copies, hfit.room, .inl rfl,
    fun o ho => .inr (.inl fun huse => huse ho), fun v hv => .inr (.inl fun huse => huse hv),
    fun i hi => .inl hi, le_rfl, fun i p hi hat => ?_, fun o ho p hp => ?_, fun _ _ => rfl,
    fun _ _ => rfl, fun _ _ => rfl, fun hzero v hv hor => ?_, le_rfl⟩
  · by_cases hnull : p = .null
    · exact .inl hnull
    · refine .inr (.inr ((h.handles i p hat hnull).trans (hi.resolve_left fun hle => ?_)))
      rw [pointerAt, List.getElem?_eq_none hle] at hat
      cases hat
  · by_cases hnull : p = .null
    · exact .inl hnull
    · refine .inr (.inr ((h.slots o p hp hnull).trans ?_))
      rcases ho with hobject | hfree | hcolour
      · cases hobject
      · exact absurd (hs.owned.not_mem_of_slot (List.ne_nil_of_mem hp)) hfree
      · exact hcolour
  · by_cases huse : v ∈ s.availableValues
    · exact hs.pool hzero v huse
    · have hq : quoted := hor.resolve_right huse
      rcases hv with hnull | hfree | hcolour
      · cases hnull
      · exact absurd huse hfree
      · exact hquoted hq hzero v huse hcolour

/-- Which side an item is on after a step of one side. -/
noncomputable def colourAfter (s : JsonStore n m) (side : ℕ → Bool)
    (colour : JsonPointer n m → Bool) (x : Bool) (p : JsonPointer n m) : Bool := by
  classical exact if (sideRegion s side colour x False).items p then x else !x

theorem colourAfter_of_items (hp : (sideRegion s side colour x False).items p) :
    s.colourAfter side colour x p = x := by
  classical exact if_pos hp

theorem colourAfter_of_not (hp : ¬ (sideRegion s side colour x False).items p) :
    s.colourAfter side colour x p = !x := by
  classical exact if_neg hp

/-- What the other side holds is not in the region. -/
theorem Sided.not_items (hcolour : colour p ≠ x) (hp : p ≠ .null) (huse : s.InUse p) :
    ¬ (sideRegion s side colour x quoted).items p := by
  rintro (hnull | hfree | hx)
  · exact hp hnull
  · exact hfree huse
  · exact hcolour hx

/-- **After a step of one side the two share nothing**, again. -/
theorem Sided.after (h : Sided s side colour) (hs : Sound s)
    (hwithin : Within (sideRegion s side colour x quoted) s 0 s' []) :
    Sided s' (s.sideAfter side x) (s.colourAfter side colour x) where
  handles i p hat hp := by
    by_cases hi : s.handles.length ≤ i ∨ side i = x
    · have hside : s.sideAfter side x i = x := by
        rw [sideAfter]
        split_ifs with hlt
        · exact hi.resolve_left (Nat.not_le.mpr hlt)
        · rfl
      rw [colourAfter_of_items (hwithin.ofHandle i p hi hat), hside]
    · obtain ⟨hlt, hne⟩ := not_or.mp hi
      have hnot : ¬ (sideRegion s side colour x quoted).Has (.handle i) := hi
      rw [hwithin.pointerAt_eq hnot] at hat
      have hcolour : colour p ≠ x := h.handles i p hat hp ▸ hne
      rw [colourAfter_of_not (Sided.not_items hcolour hp (hs.owned.inUse_at hat)), sideAfter,
        if_pos (Nat.lt_of_not_le hlt)]
      exact (Bool.eq_not_iff.mpr hne).symm
  slots o p hslot hp := by
    by_cases ho : (sideRegion s side colour x quoted).items (.object o)
    · rw [colourAfter_of_items (hwithin.ofSlot o ho p hslot), colourAfter_of_items ho]
    · rw [hwithin.objects o ho] at hslot
      have hcolour : colour p ≠ x := fun hx =>
        ho (.inr (.inr ((h.slots o p hslot hp).symm.trans hx)))
      rw [colourAfter_of_not (Sided.not_items hcolour hp (hs.owned.inUse_slot hslot)),
        colourAfter_of_not ho]

/-- What a place denotes, down to a depth. -/
def denotes (s : JsonStore n m) (depth : ℕ) (place : JsonPlace n) : Option JsonTree :=
  (s.pointerAt place).map (tree depth s)

/-- **A step of one side is not seen on the other.** -/
theorem Sided.denotes_eq (h : Sided s side colour) (hs : Sound s)
    (hwithin : Within (sideRegion s side colour x quoted) s 0 s' []) (hi : i < s.handles.length)
    (hside : side i ≠ x) (depth : ℕ) :
    s'.denotes depth (.handle i) = s.denotes depth (.handle i) := by
  have hnot : ¬ (sideRegion s side colour x quoted).Has (.handle i) := by
    rintro (hle | hx)
    · exact absurd hi (Nat.not_lt.mpr hle)
    · exact hside hx
  rw [denotes, denotes, hwithin.pointerAt_eq hnot]
  rcases hat : s.pointerAt (.handle i) with _ | p
  · rfl
  · refine congrArg some (tree_congr (K := fun p => p = .null ∨ s.InUse p ∧ colour p ≠ x)
      (fun o ho q hq => ?_) (fun o ho => ?_) (fun v hv => ?_) depth ?_)
    · obtain ⟨-, hcolour⟩ := ho.resolve_left (by rintro ⟨⟩)
      by_cases hq' : q = .null
      · exact .inl hq'
      · exact .inr ⟨hs.owned.inUse_slot hq, fun hx => hcolour ((h.slots o q hq hq').symm.trans hx)⟩
    · obtain ⟨huse, hcolour⟩ := ho.resolve_left (by rintro ⟨⟩)
      rw [hwithin.objects o (Sided.not_items hcolour (by rintro ⟨⟩) huse)]
      exact ⟨rfl, rfl, rfl⟩
    · obtain ⟨huse, hcolour⟩ := hv.resolve_left (by rintro ⟨⟩)
      rw [hwithin.values v (Sided.not_items hcolour (by rintro ⟨⟩) huse)]
    · by_cases hp : p = .null
      · exact .inl hp
      · exact .inr ⟨hs.owned.inUse_at hat, fun hx => hside ((h.handles i p hat hp).symm.trans hx)⟩

theorem Sided.allows (h : Sided s side colour) (hop : s.OneSided side x op) :
    Allows (sideRegion s side colour x False) s op where
  written := fun place hplace => h.has_of_on (hop.written place hplace)
  copied := fun place hplace => (hop.copied place hplace).imp h.has_of_on fun hobject => ⟨id, hobject⟩
  cloned := fun hquoted => hquoted.elim
  quoting := fun hquoted => hquoted.elim

/-- **The step of one side.** -/
theorem Sided.step (h : Sided s side colour) (hs : Sound s) (hfits : s.Fits op)
    (hop : s.OneSided side x op) (hok : s.perform op = .ok s') :
    Within (sideRegion s side colour x False) s 0 s' [] :=
  (h.within hs hfits fun hquoted => hquoted.elim).perform (h.allows hop) hok

/-- The states that careful operations on two sides lead to, and where the handles are then. -/
inductive SidedRuns (P : JsonStore n m → (ℕ → Bool) → Bool → JsonOperation n → Prop)
    (s : JsonStore n m) (side : ℕ → Bool) : JsonStore n m → (ℕ → Bool) → Prop
  | nil : SidedRuns P s side s side
  | step {s₁ s₂ : JsonStore n m} {side₁ : ℕ → Bool} {x : Bool} {op : JsonOperation n} :
    SidedRuns P s side s₁ side₁ → P s₁ side₁ x op → s₁.perform op = .ok s₂ →
      SidedRuns P s side s₂ (s₁.sideAfter side₁ x)

/-- A careful operation on one side. -/
def CarefulOn (s : JsonStore n m) (side : ℕ → Bool) (x : Bool) (op : JsonOperation n) : Prop :=
  s.Careful op ∧ s.OneSided side x op

/-- **Along a run on two sides they share nothing.** -/
theorem SidedRuns.sided (hs : Sound s) (h : ∃ colour, Sided s side colour)
    (hrun : SidedRuns CarefulOn s side s' side₁) :
    Sound s' ∧ ∃ colour, Sided s' side₁ colour := by
  induction hrun with
  | nil => exact ⟨hs, h⟩
  | step _ hop hok ih =>
    obtain ⟨hsound, colour, hsided⟩ := ih
    exact ⟨hsound.step hop.1.fits hok, _,
      hsided.after hsound (hsided.step hsound hop.1.fits hop.2 hok)⟩

/-! ## A deep clone -/

/-- A handle that is made changes nothing that was there. -/
theorem pointerAt_newHandle_of_some (h : s.pointerAt place = some p) (q : JsonPointer n m) :
    (s.newHandle q).pointerAt place = some p := by
  cases place with
  | handle i =>
    obtain ⟨hi, -⟩ := List.getElem?_eq_some_iff.mp (Option.join_eq_some_iff.mp h)
    rwa [pointerAt, newHandle, List.getElem?_append_left hi]
  | field o key => exact h
  | element o i => exact h

theorem tree_newHandle (s : JsonStore n m) (q p : JsonPointer n m) (depth : ℕ) :
    tree depth (s.newHandle q) p = tree depth s p := by
  refine tree_congr (K := fun _ => True) (fun _ _ _ _ => trivial) (fun _ _ => ?_) (fun _ _ => ?_)
    depth trivial
  · exact ⟨rfl, rfl, rfl⟩
  · rfl

theorem Extends.pointerAt (h : Extends s s') (hs : Owned s []) (hat : s.pointerAt place = some p) :
    s'.pointerAt place = some p := by
  cases place with
  | handle i =>
    rw [JsonStore.pointerAt, h.handles]
    exact hat
  | field o key =>
    have huse := hs.not_mem_of_slot (List.ne_nil_of_mem (mem_pointers_field hat))
    rw [JsonStore.pointerAt, h.objects o huse]
    exact hat
  | element o i =>
    have huse := hs.not_mem_of_slot (List.ne_nil_of_mem (mem_pointers_element hat))
    rw [JsonStore.pointerAt, h.objects o huse]
    exact hat

/-- **A deep clone denotes what its source denotes**, which it leaves as it is. -/
theorem Sound.deepClone (hs : Sound s) (hok : s.perform (.deepClone source) = .ok s')
    (depth : ℕ) : s'.denotes depth (.handle s.handles.length) = s.denotes depth source ∧
      s'.denotes depth source = s.denotes depth source := by
  obtain ⟨p, hread, hrest⟩ := Except.bind_eq_ok.mp hok
  obtain ⟨⟨q, s₁⟩, hclone, hrest⟩ := Except.bind_eq_ok.mp hrest
  cases hrest
  rw [read_eq_ok] at hread
  have hspec := deepClone_spec (n + 1) hs.within (hs.owned.inUse_at hread)
    (fun hquoted => hquoted.elim) hclone
  have hsame := hspec.same depth
  rw [List.map_singleton, List.map_singleton] at hsame
  have hclonePlace := pointerAt_newHandle s₁ q
  rw [hspec.fresh.handles] at hclonePlace
  have hsource := pointerAt_newHandle_of_some (hspec.fresh.pointerAt hs.owned hread) q
  rw [denotes, denotes, denotes, hread, hclonePlace, hsource]
  refine ⟨?_, ?_⟩
  · rw [Option.map_some, Option.map_some, tree_newHandle, List.head_eq_of_cons_eq hsame]
  · rw [Option.map_some, Option.map_some, tree_newHandle,
      hspec.fresh.tree hs.owned (hs.owned.inUse_at hread)]

/-- Before a clone there is one side. -/
theorem sided_const (s : JsonStore n m) : Sided s (fun _ => false) fun _ => false :=
  ⟨fun _ _ _ _ => rfl, fun _ _ _ _ => rfl⟩

/-- **What a clone makes is a side of its own.** -/
theorem Sound.sided_deepClone (hs : Sound s) (hfits : s.Fits (.deepClone source))
    (hok : s.perform (.deepClone source) = .ok s') :
    ∃ colour, Sided s' (s.sideAfter (fun _ => false) true) colour := by
  have hone : s.OneSided (fun _ => false) true (.deepClone source) :=
    ⟨fun _ hplace => absurd hplace List.not_mem_nil, fun _ hplace => absurd hplace List.not_mem_nil⟩
  exact ⟨_, (sided_const s).after hs ((sided_const s).step hs hfits hone hok)⟩

/-- **The counts, and the independence of a clone, along every careful run.**  In every state that
careful operations lead to, a reference count is the number of handles and slots that hold the
container, and the pool has it when there is none; the next careful operation fails by an empty pool
only.  A deep clone denotes what its source denotes, to every depth.  From there on, along every run
of careful operations each of which is on one side, the clone's or the other, the next one of them
changes nothing that the handles of the other side denote. -/
theorem careful_runs (hrun : Runs Careful (start n m) s) :
    (∀ o, (s.objects o).referenceCount.toNat = s.holders (.object o)) ∧
    (∀ o, o ∈ s.availableObjects ↔ s.holders (.object o) = 0) ∧
    (∀ op f, s.Careful op → s.perform op = .error f → f = .noAvailableItems) ∧
    ∀ source s', s.Careful (.deepClone source) → s.perform (.deepClone source) = .ok s' →
      (∀ depth, s'.denotes depth (.handle s.handles.length) = s.denotes depth source ∧
        s'.denotes depth source = s.denotes depth source) ∧
      ∀ s₁ side, SidedRuns CarefulOn s' (s.sideAfter (fun _ => false) true) s₁ side →
        ∀ x op s₂, CarefulOn s₁ side x op → s₁.perform op = .ok s₂ →
          ∀ i, i < s₁.handles.length → side i ≠ x → ∀ depth,
            s₂.denotes depth (.handle i) = s₁.denotes depth (.handle i) := by
  have hs : Sound s := (sound_start n m).runs (fun _ _ hop => hop.fits) hrun
  have hcount : ∀ o, (s.objects o).referenceCount.toNat = s.holders (.object o) := by
    intro o
    have hcount := hs.owned.count o
    rwa [List.count_nil, Nat.add_zero] at hcount
  refine ⟨hcount, fun o => ?_, fun op f hop hfail => hop.failsOnly hs f hfail, ?_⟩
  · rw [hs.owned.available, ← hcount]
    exact UInt32.toNat_inj.symm
  · intro source s' hop hok
    refine ⟨fun depth => hs.deepClone hok depth, fun s₁ side hsides x op s₂ hop₁ hok₁ i hi hside
      depth => ?_⟩
    obtain ⟨hs₁, colour, hsided⟩ := SidedRuns.sided (hs.step hop.fits hok)
      (hs.sided_deepClone hop.fits hok) hsides
    exact hsided.denotes_eq hs₁ (hsided.step hs₁ hop₁.1.fits hop₁.2 hok₁) hi hside depth

/-! ## A store of three containers -/

/-- The operations one after the other. -/
def performAll (s : JsonStore n m) (ops : List (JsonOperation n)) :
    Except JsonFailure (JsonStore n m) :=
  ops.foldlM perform s

/-- `Json a; a["x"];` -/
def keyed : JsonStore 3 1 :=
  ((start 3 1).step .construct).step (.indexKey (.handle 0) [120])

instance (s : JsonStore n m) (o o' : Fin n) : Decidable (s.Contains o o') :=
  inferInstanceAs (Decidable (_ ∈ (s.objects o).pointers))

theorem acyclic_of_leaves (h : ∀ o o', ¬ s.Contains o o') : Acyclic s := by
  intro o hcycle
  obtain ⟨o', hstep, -⟩ := Relation.TransGen.head'_iff.mp hcycle
  exact h o o' hstep

theorem keyed_run : Runs Careful (start 3 1) keyed := by
  refine @Runs.step _ _ _ _ _ _ (.indexKey (.handle 0) [120])
    (@Runs.step _ _ _ _ _ _ .construct .nil ?_ rfl) ?_ rfl
  · exact ⟨by decide, acyclic_of_leaves (by decide), ⟨by decide, by decide⟩, trivial⟩
  · exact ⟨by decide, acyclic_of_leaves (by decide), ⟨by decide, by decide⟩, trivial⟩

theorem keyed_clone : (keyed.step (.deepClone (.handle 0))).denotes 2 (.handle 1) =
    keyed.denotes 2 (.handle 0) :=
  (((careful_runs keyed_run).2.2.2 (.handle 0) _ ⟨by decide, acyclic_of_leaves (by decide),
    ⟨by decide, by decide⟩, trivial⟩ rfl).1 2).1

/-- **The source of an assignment can be destroyed by it**: `a = a["x"];`.  And a clone that is put
into its source is a part of it: `b = a.deep_clone(); a.push_back(b); a[0]["y"];` changes `b`. -/
theorem keyed_sharing :
    keyed.perform (.assignCopy (.handle 0) (.field 0 [120])) = .error .destroyedSlot ∧
    ∃ s s', keyed.performAll [.deepClone (.handle 0), .pushBack (.handle 0) (.handle 1)] = .ok s ∧
      s.perform (.indexKey (.element 0 0) [121]) = .ok s' ∧
        s.denotes 1 (.handle 1) = some (.container false [([120], .null)] []) ∧
          s'.denotes 1 (.handle 1) = some (.container false [([120], .null), ([121], .null)] []) :=
  ⟨rfl, _, _, rfl, rfl, rfl, rfl⟩

end JsonStore

end TradingEngine
