import TradingEngine.Json.Cloning

/-!
# Json/Operations — what an operation on a `Json` can change

An operation writes to some of its operands, copies from others, and clones others.  If what it
writes belongs to a region, and the containers it copies do, then it stays within the region
(`Within.perform`).
-/

namespace TradingEngine

variable {n m : ℕ}

namespace JsonOperation

/-- The operands that are changed, or whose container is. -/
def written : JsonOperation n → List (JsonPlace n)
  | .construct | .constructScalar _ | .constructCopy _ | .constructPairs _ | .deepClone _ => []
  | .constructMove q => [q]
  | .destroy i => [.handle i]
  | .assignMove p q => [p, q]
  | .assignCopy p _ | .pushBack p _
  | .assignScalar p _ | .indexKey p _ | .indexElement p _ | .removeField p _ | .setSize p _
  | .setArray p | .reverse p | .sort p _ | .setIsStringFormat p _ | .queryString p => [p]

/-- The operands that are copied. -/
def copied : JsonOperation n → List (JsonPlace n)
  | .constructCopy q | .assignCopy _ q | .pushBack _ q => [q]
  | .constructPairs pairs => pairs.map (·.2)
  | _ => []

/-- The operands that are cloned. -/
def cloned : JsonOperation n → List (JsonPlace n)
  | .deepClone q => [q]
  | _ => []

/-- The operations that turn the quoting of a string off. -/
def Unquotes : JsonOperation n → Prop
  | .setIsStringFormat _ val => val = false
  | .queryString _ => True
  | _ => False

end JsonOperation

namespace JsonStore

/-- **An operation keeps to a region.**  A value that is copied may come from elsewhere, unless the
region is quoted; a clone is made of what is free. -/
structure Allows (R : JsonRegion n m) (s : JsonStore n m) (op : JsonOperation n) : Prop where
  written : ∀ place ∈ op.written, R.Has place
  copied : ∀ place ∈ op.copied, R.Has place ∨
    ¬ R.quoted ∧ ∀ o, s.pointerAt place ≠ some (.object o)
  cloned : R.quoted → ∀ place ∈ op.cloned, R.Has place
  quoting : R.quoted → ¬ op.Unquotes

variable {R : JsonRegion n m} {s₀ s s' : JsonStore n m} {k : ℕ} {ts : List (JsonPointer n m)}
  {place target source : JsonPlace n} {p q : JsonPointer n m} {o : Fin n} {v : Fin m}

/-- What is outside is as it was when the operation began. -/
theorem Within.accepts (h : Within R s₀ k s ts)
    (hplace : R.Has place ∨ ¬ R.quoted ∧ ∀ o, s₀.pointerAt place ≠ some (.object o))
    (hat : s.pointerAt place = some p) : Accepts R p := by
  by_cases hhas : R.Has place
  · have hp := h.items_of_has hhas hat
    exact ⟨fun _ _ => hp, fun _ => hp⟩
  · obtain ⟨hquoted, hobject⟩ := hplace.resolve_left hhas
    rw [h.pointerAt_eq hhas] at hat
    exact ⟨fun o ho => absurd (ho ▸ hat) (hobject o), fun hR => absurd hR hquoted⟩

/-! ## Assignments -/

theorem Within.assignCopy (h : Within R s₀ 1 s ts) (htarget : R.Has target)
    (hsource : R.Has source ∨ ¬ R.quoted ∧ ∀ o, s₀.pointerAt source ≠ some (.object o))
    (hok : s.assignCopy target source = .ok s') : Within R s₀ 0 s' ts := by
  rw [JsonStore.assignCopy] at hok
  split at hok
  case isTrue heq =>
    cases hok
    exact h.fewer (Nat.zero_le 1)
  case isFalse hne =>
    obtain ⟨old, hold, hrest⟩ := Except.bind_eq_ok.mp hok
    obtain ⟨p, hread, hrest⟩ := Except.bind_eq_ok.mp hrest
    obtain ⟨⟨q, s₁⟩, hcopy, hput⟩ := Except.bind_eq_ok.mp hrest
    rw [read_eq_ok] at hold hread
    have hempty := h.empty htarget hold
    have hs₁ := hempty.copy hread (hempty.accepts hsource hread) hcopy
    refine (hs₁.fill htarget hput fun old' hold' => pointerAt_empty hold ?_).1
    rwa [pointerAt_copy hcopy] at hold'

theorem Within.assignMove (h : Within R s₀ k s ts) (htarget : R.Has target)
    (hsource : R.Has source) (hok : s.assignMove target source = .ok s') :
    Within R s₀ k s' ts := by
  rw [JsonStore.assignMove] at hok
  split at hok
  case isTrue heq =>
    cases hok
    exact h
  case isFalse hne =>
    obtain ⟨old, hold, hrest⟩ := Except.bind_eq_ok.mp hok
    obtain ⟨p, hread, hput⟩ := Except.bind_eq_ok.mp hrest
    rw [read_eq_ok] at hold hread
    have htaken := (Within.cons_null.mpr (h.empty htarget hold)).assign hsource hread
    refine (htaken.fill htarget hput fun old' hold' => ?_).1
    rw [pointerAt_assign_of_ne hne] at hold'
    exact pointerAt_empty hold hold'

/-! ## Constructors -/

theorem Within.constructScalar {x : JsonScalar} (h : Within R s₀ k s ts)
    (hok : s.perform (.constructScalar x) = .ok s') : Within R s₀ k s' ts := by
  obtain ⟨⟨v, s₁⟩, hacquire, hrest⟩ := Except.bind_eq_ok.mp hok
  cases hrest
  obtain ⟨hs₁, hnot⟩ := h.acquireValue hacquire
  exact (hs₁.updateValue (hs₁.inFlight _ List.mem_cons_self) hnot fun _ _ hflag => hflag).newHandle

/-- A handle keeps what it holds when another one is made. -/
theorem pointerAt_newHandle (s : JsonStore n m) (p : JsonPointer n m) :
    (s.newHandle p).pointerAt (.handle s.handles.length) = some p := by
  rw [pointerAt, newHandle, List.getElem?_concat_length]
  rfl

/-- **The loop over the pairs** makes one copy for each. -/
theorem Within.addPairs {i : ℕ} {pairs : List (List UInt8 × JsonPlace n)}
    (h : Within R s₀ pairs.length s ts) (hi : R.handles i)
    (hat : s.pointerAt (.handle i) = some (.object o))
    (hcopied : ∀ place ∈ pairs.map (·.2), R.Has place ∨
      ¬ R.quoted ∧ ∀ o, s₀.pointerAt place ≠ some (.object o))
    (hok : pairs.foldlM (JsonStore.addPair · o) s = .ok s') : Within R s₀ 0 s' ts := by
  refine (Except.foldlM_rule (P := fun pairs s => Within R s₀ pairs.length s ts ∧
    s.pointerAt (.handle i) = some (.object o) ∧ ∀ place ∈ pairs.map (·.2), R.Has place ∨
      ¬ R.quoted ∧ ∀ o, s₀.pointerAt place ≠ some (.object o)) ?_ ⟨h, hat, hcopied⟩ hok).1
  rintro pair pairs s s' ⟨hs, hat, hcopied⟩ hpair
  obtain ⟨hpairs, hrest⟩ := List.forall_mem_cons.mp hcopied
  obtain ⟨hs', hat'⟩ := hs.addPair hi hat (fun p hp => hs.accepts hpairs hp) hpair
  exact ⟨hs', hat', hrest⟩

theorem Within.constructPairs {pairs : List (List UInt8 × JsonPlace n)}
    (h : Within R s₀ pairs.length s ts)
    (hcopied : ∀ place ∈ pairs.map (·.2), R.Has place ∨
      ¬ R.quoted ∧ ∀ o, s₀.pointerAt place ≠ some (.object o))
    (hok : s.perform (.constructPairs pairs) = .ok s') : Within R s₀ 0 s' ts := by
  obtain ⟨⟨o, s₁⟩, hacquire, hrest⟩ := Except.bind_eq_ok.mp hok
  obtain ⟨hs₁, -, -⟩ := h.acquireObject hacquire
  exact hs₁.newHandle.addPairs (h.fresh _ hs₁.grown) (pointerAt_newHandle s₁ _) hcopied hrest

/-! ## The quoting -/

/-- A value of the region loses its quoting, where the region is not quoted. -/
theorem Within.unquote (h : Within R s₀ k s ts) (hR : ¬ R.quoted) (hp : R.items p)
    (huse : s.InUse p) : Within R s₀ k (s.unquote p) ts := by
  cases p with
  | null => exact h
  | value v =>
    rw [JsonStore.unquote]
    split
    case h_1 => exact h.updateValue hp huse fun hquoted => absurd hquoted hR
    case h_2 => exact h
  | object o => exact h

theorem unquote_inUse (huse : s.InUse p) : (s.unquote q).InUse p := by
  cases q with
  | null => exact huse
  | value v =>
    rw [unquote]
    split
    case h_1 => cases p <;> exact huse
    case h_2 => exact huse
  | object o => exact huse

theorem Within.unquotes {ps : List (JsonPointer n m)} (h : Within R s₀ k s ts)
    (hR : ¬ R.quoted) (hps : ∀ p ∈ ps, R.items p ∧ s.InUse p) :
    Within R s₀ k (ps.foldl JsonStore.unquote s) ts := by
  induction ps generalizing s with
  | nil => exact h
  | cons p ps ih =>
    obtain ⟨⟨hp, huse⟩, hps⟩ := List.forall_mem_cons.mp hps
    exact ih (h.unquote hR hp huse) fun q hq => ⟨(hps q hq).1, unquote_inUse (hps q hq).2⟩

/-! ## The step -/

/-- A call on the container of a place, which is made where there is none. -/
theorem Within.onContainer (h : Within R s₀ k s ts) (hhas : R.Has place)
    {f : Fin n → JsonStore n m → JsonStore n m}
    (hf : ∀ o s, Within R s₀ k s ts → R.items (.object o) → o ∉ s.availableObjects →
      Within R s₀ k (f o s) ts)
    (hok : (do
      let (o, s) ← s.checkCreateObject place
      return f o s) = .ok s') : Within R s₀ k s' ts := by
  obtain ⟨⟨o, s₁⟩, hcreate, hrest⟩ := Except.bind_eq_ok.mp hok
  cases hrest
  obtain ⟨hs₁, hat⟩ := h.checkCreateObject hhas hcreate
  exact hf o s₁ hs₁ (hs₁.items_of_has hhas hat) (hs₁.not_available hat)

/-- **An operation stays within a region** it keeps to. -/
theorem Within.perform {op : JsonOperation n} (h : Within R s op.copied.length s [])
    (hop : Allows R s op) (hok : s.perform op = .ok s') : Within R s 0 s' [] := by
  have hzero : Within R s 0 s [] := h.fewer (Nat.zero_le _)
  cases op with
  | construct =>
    cases hok
    exact (Within.cons_null.mpr hzero).newHandle
  | constructScalar x => exact hzero.constructScalar hok
  | constructCopy source =>
    obtain ⟨p, hread, hrest⟩ := Except.bind_eq_ok.mp hok
    obtain ⟨⟨q, s₁⟩, hcopy, hrest⟩ := Except.bind_eq_ok.mp hrest
    cases hrest
    rw [read_eq_ok] at hread
    have hsource := hop.copied source (List.mem_singleton_self source)
    exact (Within.copy (k := 0) h hread (h.accepts hsource hread) hcopy).newHandle
  | constructMove source =>
    obtain ⟨p, hread, hrest⟩ := Except.bind_eq_ok.mp hok
    cases hrest
    rw [read_eq_ok] at hread
    have hsource := hop.written source (List.mem_singleton_self source)
    exact ((Within.cons_null.mpr hzero).assign hsource hread).newHandle
  | constructPairs pairs =>
    have hlength : (JsonOperation.constructPairs pairs).copied.length = pairs.length :=
      List.length_map _
    rw [hlength] at h
    exact h.constructPairs hop.copied hok
  | destroy i =>
    obtain ⟨p, hread, hrest⟩ := Except.bind_eq_ok.mp hok
    cases hrest
    rw [read_eq_ok] at hread
    exact (hzero.dropHandle (hop.written _ (List.mem_singleton_self _)) hread).release
  | assignScalar target x =>
    obtain ⟨⟨v, s₁⟩, hcreate, hrest⟩ := Except.bind_eq_ok.mp hok
    cases hrest
    have htarget := hop.written target (List.mem_singleton_self _)
    obtain ⟨hs₁, hat⟩ := hzero.checkCreateValue htarget hcreate
    exact hs₁.updateValue (hs₁.items_of_has htarget hat) (hs₁.not_available_value hat)
      fun _ _ hflag => hflag
  | assignCopy target source =>
    exact Within.assignCopy h (hop.written target (List.mem_singleton_self _))
      (hop.copied source (List.mem_singleton_self _)) hok
  | assignMove target source =>
    exact hzero.assignMove (hop.written target List.mem_cons_self)
      (hop.written source (List.mem_cons_of_mem _ (List.mem_singleton_self _))) hok
  | indexKey target key =>
    exact hzero.onContainer (hop.written target (List.mem_singleton_self _))
      (fun o s hs ho hnot => hs.emplace ho hnot key) hok
  | indexElement target index =>
    exact hzero.onContainer (hop.written target (List.mem_singleton_self _))
      (fun o s hs ho hnot => hs.growTo ho hnot index) hok
  | pushBack target source =>
    obtain ⟨⟨o, s₁⟩, hcreate, hrest⟩ := Except.bind_eq_ok.mp hok
    obtain ⟨p, hread, hrest⟩ := Except.bind_eq_ok.mp hrest
    obtain ⟨⟨q, s₂⟩, hcopy, hrest⟩ := Except.bind_eq_ok.mp hrest
    cases hrest
    rw [read_eq_ok] at hread
    have htarget := hop.written target (List.mem_singleton_self _)
    have hsource := hop.copied source (List.mem_singleton_self _)
    obtain ⟨hs₁, hat⟩ := Within.checkCreateObject h htarget hcreate
    have hs₂ := Within.copy (k := 0) hs₁ hread (hs₁.accepts hsource hread) hcopy
    rw [← pointerAt_copy hcopy] at hat
    exact hs₂.push (hs₂.items_of_has htarget hat) (hs₂.not_available hat)
  | removeField target key =>
    obtain ⟨p, hread, hrest⟩ := Except.bind_eq_ok.mp hok
    rw [read_eq_ok] at hread
    have htarget := hop.written target (List.mem_singleton_self _)
    cases p with
    | null => cases hrest
    | value v =>
      cases hrest
      exact hzero
    | object o =>
      cases hrest
      exact hzero.removeField (hzero.items_of_has htarget hread) (hzero.not_available hread) key
  | setSize target size =>
    exact hzero.onContainer (hop.written target (List.mem_singleton_self _))
      (fun o s hs ho hnot => hs.setSize ho hnot size) hok
  | setArray target =>
    exact hzero.onContainer (hop.written target (List.mem_singleton_self _))
      (fun o s hs ho hnot => hs.updateArray ho hnot (.refl _)) hok
  | reverse target =>
    exact hzero.onContainer (hop.written target (List.mem_singleton_self _))
      (fun o s hs ho hnot => hs.updateArray ho hnot (List.reverse_perm _)) hok
  | sort target order =>
    exact hzero.onContainer (hop.written target (List.mem_singleton_self _))
      (fun o s hs ho hnot => hs.updateArray ho hnot (sorted_perm order _)) hok
  | deepClone source =>
    obtain ⟨p, hread, hrest⟩ := Except.bind_eq_ok.mp hok
    obtain ⟨⟨q, s₁⟩, hclone, hrest⟩ := Except.bind_eq_ok.mp hrest
    cases hrest
    rw [read_eq_ok] at hread
    have hitems : R.quoted → R.items p := fun hR =>
      hzero.items_of_has (hop.cloned hR source (List.mem_singleton_self _)) hread
    exact (deepClone_spec (n + 1) hzero (hzero.owned.inUse_at hread) hitems
      hclone).within.newHandle
  | setIsStringFormat target val =>
    obtain ⟨p, hread, hrest⟩ := Except.bind_eq_ok.mp hok
    rw [read_eq_ok] at hread
    have htarget := hop.written target (List.mem_singleton_self _)
    cases p with
    | null =>
      cases hrest
      exact hzero
    | value v =>
      cases hrest
      refine hzero.updateValue (hzero.items_of_has htarget hread)
        (hzero.not_available_value hread) fun hR _ _ => ?_
      have hval := hop.quoting hR
      simpa [JsonOperation.Unquotes] using hval
    | object o => cases hrest
  | queryString target =>
    have hR : ¬ R.quoted := fun hR => hop.quoting hR trivial
    obtain ⟨p, hread, hrest⟩ := Except.bind_eq_ok.mp hok
    rw [read_eq_ok] at hread
    have htarget := hop.written target (List.mem_singleton_self _)
    cases p with
    | null =>
      cases hrest
      exact hzero
    | value v =>
      cases hrest
      exact hzero
    | object o =>
      cases hrest
      split_ifs with hkind
      · exact hzero
      · refine hzero.unquotes hR fun q hq => ?_
        have hslot : q ∈ (s.objects o).pointers := List.mem_append_left _ hq
        exact ⟨hzero.ofSlot o (hzero.items_of_has htarget hread) q hslot,
          hzero.owned.inUse_slot hslot⟩

end JsonStore

end TradingEngine
