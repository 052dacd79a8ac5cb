import TradingEngine.Cache.ShareString

/-!
# Cache/StringSharing — when shared strings stay right

Every operation keeps the counts and the texts as long as it meets `Careful`; an assignment of a
`ShareString` to itself, a slice that ends with the visible text, a sum that wraps and a count that
wraps do not, so a program goes right exactly if each of its operations meets the condition
(`sound_along_iff`).
-/

namespace TradingEngine

namespace StringStore

open Handles StringPool

variable {size : ℕ} {store : StringStore size} {pool pool' : StringPool size} {i j : ℕ}
  {p q new : ShareString size} {r : Fin size} {changed : ℕ → Prop} {operation : StringOperation}

/-- **The invariant**: the `ShareString`s are parts of their strings, which are counted. -/
structure Inv (store : StringStore size) : Prop where
  within : ∀ i p, store.string i = some p → Within store.pool p
  counted : Counted store.pool store.live

/-! ## Places -/

theorem getElem?_of_string (h : store.string i = some p) : store.strings[i]? = some (some p) :=
  Option.join_eq_some_iff.mp h

theorem lt_of_string (h : store.string i = some p) : i < store.strings.length :=
  (List.getElem?_eq_some_iff.mp (getElem?_of_string h)).1

theorem target_of_string (h : store.string i = some p) :
    store.targets[i]? = some p.stringReference := by
  rw [targets, List.getElem?_map, getElem?_of_string h]
  rfl

/-- A `ShareString` lives: its string is counted. -/
theorem live_pos (h : store.string i = some p) (hr : p.stringReference = some r) :
    1 ≤ store.live r := by
  have hle := weight_le_holders (target_of_string h) r
  rwa [hr, weight_self] at hle

/-- The others keep their places. -/
theorem string_concat_of_lt {strings : List (Option (ShareString size))}
    {last : Option (ShareString size)} (hi : i < strings.length) :
    string ⟨pool', strings ++ [last]⟩ i = string ⟨pool, strings⟩ i := by
  rw [string, string, List.getElem?_append_left hi]

theorem string_concat_self (pool : StringPool size) (strings : List (Option (ShareString size)))
    (last : Option (ShareString size)) :
    string ⟨pool, strings ++ [last]⟩ strings.length = last := by
  rw [string, List.getElem?_concat_length]
  rfl

theorem string_set_of_ne {strings : List (Option (ShareString size))}
    {other : Option (ShareString size)} (hij : i ≠ j) :
    string ⟨pool', strings.set j other⟩ i = string ⟨pool, strings⟩ i := by
  rw [string, string, List.getElem?_set_ne hij.symm]

theorem string_set_self {strings : List (Option (ShareString size))}
    {other : Option (ShareString size)} (hi : i < strings.length) :
    string ⟨pool, strings.set i other⟩ i = other := by
  rw [string, List.getElem?_set_self hi]
  rfl

/-- A `ShareString` is a new one, or an old one. -/
theorem string_of_concat (pool : StringPool size) {strings : List (Option (ShareString size))}
    (h : string ⟨pool', strings ++ [some new]⟩ i = some p) :
    string ⟨pool, strings⟩ i = some p ∨ p = new := by
  rcases Nat.lt_trichotomy i strings.length with hlt | rfl | hgt
  · exact .inl (string_concat_of_lt hlt ▸ h)
  · rw [string_concat_self] at h
    exact .inr (Option.some.inj h).symm
  · have hlt := lt_of_string h
    rw [List.length_append, List.length_singleton] at hlt
    omega

theorem string_of_set (pool : StringPool size) {strings : List (Option (ShareString size))}
    {other : Option (ShareString size)}
    (h : string ⟨pool', strings.set j other⟩ i = some p) :
    string ⟨pool, strings⟩ i = some p ∨ other = some p := by
  rcases eq_or_ne i j with rfl | hij
  · have hlt := lt_of_string h
    rw [List.length_set] at hlt
    rw [string_set_self hlt] at h
    exact .inr h
  · exact .inl (string_set_of_ne hij ▸ h)

/-! ## Texts -/

/-- The visible text is the part of the string. -/
theorem data_of_within (h : Within pool p) :
    ∃ text : List UInt8, data pool p = some text ∧ text.length = p.length.toNat := by
  obtain ⟨r, hr, hle⟩ := h
  refine ⟨((pool.reference r).data.val.drop p.startIndex.toNat).take p.length.toNat, ?_, ?_⟩
  · rw [data, hr]
    exact if_pos (by omega)
  · rw [List.length_take, List.length_drop]
    omega

/-- **A slice of a part** is a part of the string, and shows the part of its text. -/
theorem within_slice {startIndex length : UInt64} (h : Within pool p)
    (hle : startIndex.toNat + length.toNat ≤ p.length.toNat) {text : List UInt8}
    (htext : data pool p = some text) :
    Within pool { p with startIndex := p.startIndex + startIndex, length := length } ∧
      IsPart text startIndex.toNat length.toNat
        (data pool { p with startIndex := p.startIndex + startIndex, length := length }) := by
  obtain ⟨r, hr, hwithin⟩ := h
  have hlt := (pool.reference r).data.property
  have hsum : (p.startIndex + startIndex).toNat = p.startIndex.toNat + startIndex.toNat := by
    rw [UInt64.toNat_add]
    exact Nat.mod_eq_of_lt (by omega)
  obtain rfl :
      ((pool.reference r).data.val.drop p.startIndex.toNat).take p.length.toNat = text := by
    rw [data, hr] at htext
    dsimp only at htext
    rw [if_pos (by omega)] at htext
    exact Option.some.inj htext
  refine ⟨⟨r, hr, ?_⟩, ?_, ?_⟩
  · dsimp only
    omega
  · rw [List.length_take, List.length_drop]
    omega
  · rw [data]
    simp only [hr, hsum]
    rw [if_pos (by omega), List.drop_take, List.drop_drop, List.take_take]
    congr 2
    omega

theorem data_congr (hdata : ∀ r, p.stringReference = some r →
    (pool'.reference r).data = (pool.reference r).data) : data pool' p = data pool p := by
  rw [data, data]
  split
  · rfl
  · rw [hdata _ ‹_›]

theorem Within.congr (h : Within pool p) (hdata : ∀ r, p.stringReference = some r →
    (pool'.reference r).data = (pool.reference r).data) : Within pool' p := by
  obtain ⟨r, hr, hle⟩ := h
  exact ⟨r, hr, by rwa [hdata r hr]⟩

theorem text_of_string (h : store.string i = some p) : store.text i = data store.pool p := by
  rw [text, h]
  rfl

/-! ## One operation -/

/-- What an operation keeps, apart from some places. -/
structure Accounted (store : StringStore size) (changed : ℕ → Prop)
    (result : StringStore size × List (StringEffect size)) : Prop where
  inv : Inv result.1
  noNull : .nullReference ∉ result.2
  released : ∀ r,
    (.released r ∈ result.2 ↔ 0 < store.live r ∧ result.1.live r = 0) ∧
      result.2.count (.released r) ≤ 1
  kept : ∀ i, store.string i ≠ none → ¬ changed i → result.1.text i = store.text i

theorem Accounted.sound (h : Accounted store (Changes operation) (store.step operation))
    (hgives : store.Gives operation) : Sound store operation where
  noNull := h.noNull
  counted := h.inv.counted.counter
  released := h.released
  within := h.inv.within
  kept := h.kept
  gives := hgives

/-- Nothing is released, and no last holder goes away. -/
theorem released_of_le {store' : StringStore size} {effects : List (StringEffect size)}
    (heffects : ∀ r, .released r ∉ effects) (hle : ∀ r, store.live r ≤ store'.live r)
    (r : Fin size) :
    (.released r ∈ effects ↔ 0 < store.live r ∧ store'.live r = 0) ∧
      effects.count (.released r) ≤ 1 := by
  refine ⟨iff_of_false (heffects r) fun hgone => ?_, ?_⟩
  · have := hle r
    omega
  · rw [List.count_eq_zero.mpr (heffects r)]
    exact Nat.zero_le 1

/-- A call that throws. -/
theorem Inv.unchanged (h : Inv store) {effects : List (StringEffect size)}
    (hnull : .nullReference ∉ effects) (heffects : ∀ r, .released r ∉ effects) :
    Accounted store changed (store, effects) where
  inv := h
  noNull := hnull
  released := released_of_le heffects fun _ => le_rfl
  kept := fun _ _ _ => rfl

/-- **A `ShareString` is added**, and the strings that are held stay what they are. -/
theorem Inv.added (h : Inv store) {effects : List (StringEffect size)}
    (hnull : .nullReference ∉ effects) (heffects : ∀ r, .released r ∉ effects)
    (hdata : ∀ r, 1 ≤ store.live r → (pool'.reference r).data = (store.pool.reference r).data)
    (hwithin : Within pool' new)
    (hcounted : Counted pool' fun r => store.live r + weight new.stringReference r) :
    Accounted store changed (⟨pool', store.strings ++ [some new]⟩, effects) := by
  have hlive : ∀ r, live ⟨pool', store.strings ++ [some new]⟩ r =
      store.live r + weight new.stringReference r := by
    intro r
    rw [live, targets, List.map_append]
    exact holders_concat store.targets _ r
  refine ⟨⟨fun i p hp => ?_, hcounted.congr fun r => (hlive r).symm⟩, hnull,
    released_of_le heffects fun r => ?_, fun i hi _ => ?_⟩
  · rcases string_of_concat store.pool hp with hold | rfl
    · exact (h.within i p hold).congr fun r hr => hdata r (live_pos hold hr)
    · exact hwithin
  · rw [hlive]
    exact Nat.le_add_right _ _
  · obtain ⟨p, hp⟩ := Option.ne_none_iff_exists'.mp hi
    have hkept : string ⟨pool', store.strings ++ [some new]⟩ i = some p :=
      (string_concat_of_lt (lt_of_string hp)).trans hp
    rw [text_of_string hkept, text_of_string hp]
    exact data_congr fun r hr => hdata r (live_pos hp hr)

theorem Inv.construct (h : Inv store) (data : StdString) :
    Accounted store changed (store.construct data) ∧
      (store.construct data = (store, [.noAvailableItems]) ∨
        (store.construct data).1.text store.strings.length = some data.val) := by
  rw [StringStore.construct]
  rcases h.counted.acquire data with hnone | ⟨r, pool', hsome, hzero, hreference, hcounted⟩
  · rw [hnone]
    exact ⟨h.unchanged (by simp) (by simp), .inl rfl⟩
  · have hlength : (UInt64.ofNat data.val.length).toNat = data.val.length :=
      UInt64.toNat_ofNat_of_lt' data.property
    have hself : ((pool'.write r ⟨data, 1⟩).reference r).data = data := by simp [write]
    rw [hsome]
    refine ⟨h.added (by simp) (by simp) (fun other hother => ?_) ⟨r, rfl, ?_⟩ hcounted, .inr ?_⟩
    · have hne : other ≠ r := by
        rintro rfl
        omega
      rw [write, hreference]
      exact congrArg StringReference.data (Function.update_of_ne hne _ _)
    · simp [hself, hlength]
    · rw [text_of_string (string_concat_self _ _ _), StringStore.data]
      simp [hself, hlength]

/-- **A string gets one more holder.** -/
theorem Inv.concat (h : Inv store) (changed : ℕ → Prop) (hwithin : Within store.pool new)
    (hr : new.stringReference = some r) (hpos : 1 ≤ store.live r)
    (hretain : store.Retainable new) :
    Accounted store changed (store.concat new) ∧
      (store.concat new).1.text store.strings.length = data store.pool new := by
  have hlt := hretain r hr
  rw [h.counted.counter] at hlt
  have hdata := retain_data store.pool new.stringReference
  have hcounted := h.counted.retain hpos hlt
  rw [← hr] at hcounted
  have heq : store.concat new =
      (⟨(store.pool.retain new.stringReference).2, store.strings ++ [some new]⟩, []) := by
    rw [StringStore.concat, hr]
    rfl
  rw [heq]
  refine ⟨h.added (by simp) (by simp) (fun r _ => hdata r)
    (hwithin.congr fun r _ => hdata r) hcounted, ?_⟩
  rw [text_of_string (string_concat_self _ _ _)]
  exact data_congr fun r _ => hdata r

/-- **A holder is dropped**, and another one may take its place. -/
theorem Inv.replaced (h : Inv store) (hp : store.string i = some p)
    (hr : p.stringReference = some r) {other : Option (ShareString size)}
    {target : Option (Fin size)}
    (htarget : (other.bind fun string => string.stringReference) = target)
    (hdata : ∀ r, (pool'.reference r).data = (store.pool.reference r).data)
    (hwithin : ∀ q, other = some q → Within store.pool q)
    (hle : ∀ s, weight (some r) s + weight target s ≤ store.live s)
    (hcounted : Counted pool' fun s => store.live s - weight (some r) s + weight target s)
    (hchanged : changed i) :
    Accounted store changed (⟨pool', store.strings.set i other⟩, releases store.live r) := by
  have hlive : ∀ s, live ⟨pool', store.strings.set i other⟩ s + weight (some r) s =
      store.live s + weight target s := by
    intro s
    rw [live, targets, List.map_set, ← htarget, ← hr]
    exact holders_set (target_of_string hp) _ s
  refine ⟨⟨fun k q hq => ?_, hcounted.congr fun s => ?_⟩, ?_, fun s => ⟨?_, ?_⟩,
    fun k hk hkept => ?_⟩
  · refine Within.congr ?_ fun s _ => hdata s
    rcases string_of_set store.pool hq with hold | hnew
    · exact h.within k q hold
    · exact hwithin q hnew
  · have hles := hle s
    have hlives := hlive s
    dsimp only
    omega
  · rw [releases]
    split <;> simp
  · have hles := hle s
    have hlives := hlive s
    dsimp only
    rw [releases]
    rcases eq_or_ne s r with rfl | hne
    · rw [weight_self] at hles hlives
      split
      case isTrue hone => exact iff_of_true List.mem_cons_self ⟨by omega, by omega⟩
      case isFalse hone => exact iff_of_false List.not_mem_nil fun hgone => by omega
    · rw [weight_of_ne hne.symm] at hlives
      refine iff_of_false ?_ fun hgone => by omega
      split <;> simp [hne]
  · refine List.count_le_length.trans ?_
    rw [releases]
    split <;> simp
  · have hne : k ≠ i := by
      rintro rfl
      exact hkept hchanged
    obtain ⟨q, hq⟩ := Option.ne_none_iff_exists'.mp hk
    have hsame : string ⟨pool', store.strings.set i other⟩ k = some q :=
      (string_set_of_ne hne).trans hq
    rw [text_of_string hsame, text_of_string hq]
    exact data_congr fun s _ => hdata s

theorem Inv.destroy (h : Inv store) (hp : store.string i = some p) (hchanged : changed i) :
    Accounted store changed
      (⟨(store.pool.checkReleaseCurrentData p.stringReference).2, store.strings.set i none⟩,
        (store.pool.checkReleaseCurrentData p.stringReference).1) := by
  obtain ⟨r, hr, -⟩ := h.within i p hp
  have hpos := live_pos hp hr
  obtain ⟨heffects, hcounted⟩ := h.counted.checkRelease hpos
  have hdata := checkRelease_data store.pool p.stringReference
  rw [hr] at hdata ⊢
  rw [heffects]
  refine h.replaced hp hr rfl hdata nofun (fun s => ?_) hcounted hchanged
  have hle := weight_le_holders (target_of_string hp) s
  rwa [hr] at hle

/-! ## Assignments -/

/-- The two sides of an assignment differ. -/
theorem assign_of_ne (hp : store.string i = some p) (hq : store.string j = some q) (hij : i ≠ j) :
    store.assign i j =
      (⟨((store.pool.checkReleaseCurrentData p.stringReference).2.retain q.stringReference).2,
        store.strings.set i (some q)⟩,
        (store.pool.checkReleaseCurrentData p.stringReference).1 ++
          ((store.pool.checkReleaseCurrentData p.stringReference).2.retain
            q.stringReference).1) := by
  have hother : ∀ (pool : StringPool size) (x : Option (ShareString size)),
      string ⟨pool, store.strings.set i x⟩ j = some q :=
    fun _ _ => (string_set_of_ne hij.symm).trans hq
  rw [assign, hp]
  simp only [hother, List.set_set]

/-- **A `ShareString` is assigned to itself**: what it is assigned is released by then. -/
theorem assign_self (hp : store.string i = some p) : .nullReference ∈ (store.assign i i).2 := by
  have hself : ∀ (pool : StringPool size) (x : Option (ShareString size)),
      string ⟨pool, store.strings.set i x⟩ i = x := fun _ _ => string_set_self (lt_of_string hp)
  rw [assign, hp]
  simp only [hself]
  exact List.mem_append_right _ List.mem_cons_self

theorem assign_of_none (h : store.string i = none ∨ store.string j = none) :
    store.assign i j = (store, []) := by
  rw [assign]
  cases hp : store.string i with
  | none => rfl
  | some p =>
    have hj : store.string j = none := h.resolve_left (by simp [hp])
    have hij : j ≠ i := by
      rintro rfl
      rw [hp] at hj
      cases hj
    have hother : ∀ (pool : StringPool size) (x : Option (ShareString size)),
        string ⟨pool, store.strings.set i x⟩ j = none :=
      fun _ _ => (string_set_of_ne hij).trans hj
    simp only [hother]

theorem Inv.assign (h : Inv store) (hp : store.string i = some p) (hq : store.string j = some q)
    (hassignable : Assignable store i j p q) :
    Accounted store (fun k => k = i) (store.assign i j) ∧
      (store.assign i j).1.text i = store.text j := by
  obtain ⟨hij, hretain⟩ := hassignable
  obtain ⟨r, hr, -⟩ := h.within i p hp
  obtain ⟨s, hs, hwithin⟩ := h.within j q hq
  obtain ⟨heffects, hcounted⟩ := h.counted.checkRelease (live_pos hp hr)
  have hboth : ∀ t, weight (some r) t + weight (some s) t ≤ store.live t := by
    have hle := weight_add_le_holders hij (target_of_string hp) (target_of_string hq)
    rwa [hr, hs] at hle
  have hdata : ∀ t,
      (((store.pool.checkReleaseCurrentData (some r)).2.retain (some s)).2.reference t).data =
        (store.pool.reference t).data :=
    fun t => (retain_data _ _ t).trans (checkRelease_data _ _ t)
  have hpos : 1 ≤ store.live s - weight (some r) s := by
    have := hboth s
    rw [weight_self] at this
    omega
  have hlt : store.live s - weight (some r) s + 1 < 2 ^ 32 := by
    rcases hretain with heq | hretain
    · -- the count that was lowered is raised again
      have hbound := (store.pool.reference s).count.toNat_lt
      rw [h.counted.counter] at hbound
      rw [hr, hs] at heq
      rw [heq, weight_self]
      have := live_pos hq hs
      omega
    · have := hretain s hs
      rw [h.counted.counter] at this
      omega
  have hnew := hcounted.retain hpos hlt
  rw [assign_of_ne hp hq hij, hr, hs, heffects]
  have hnone : (((store.pool.checkReleaseCurrentData (some r)).2.retain (some s)).1 :
      List (StringEffect size)) = [] := rfl
  rw [hnone, List.append_nil]
  refine ⟨h.replaced hp hr (by simp [hs]) hdata (fun k hk => ?_) hboth hnew rfl, ?_⟩
  · cases hk
    exact h.within j q hq
  · rw [text_of_string (string_set_self (lt_of_string hp)), text_of_string hq]
    exact data_congr fun t _ => hdata t

/-! ## Slices -/

/-- **A slice within the visible text.** -/
theorem Inv.slice (h : Inv store) (hp : store.string i = some p) {startIndex length : UInt64}
    (hle : startIndex.toNat + length.toNat ≤ p.length.toNat) (hretain : store.Retainable p) :
    Accounted store changed
        (store.concat { p with startIndex := p.startIndex + startIndex, length := length }) ∧
      ∀ text, store.text i = some text → IsPart text startIndex.toNat length.toNat
        ((store.concat
          { p with startIndex := p.startIndex + startIndex, length := length }).1.text
            store.strings.length) := by
  obtain ⟨r, hr, -⟩ := h.within i p hp
  obtain ⟨text, htext, -⟩ := data_of_within (h.within i p hp)
  obtain ⟨hwithin, hpart⟩ := within_slice (h.within i p hp) hle htext
  have hconcat := h.concat changed hwithin hr (live_pos hp hr) hretain
  refine ⟨hconcat.1, fun visible hvisible => ?_⟩
  rw [text_of_string hp, htext] at hvisible
  rw [hconcat.2, ← Option.some.inj hvisible]
  exact hpart

/-- What is added is there. -/
theorem concat_ne (store : StringStore size) (new : ShareString size)
    (effects : List (StringEffect size)) : store.concat new ≠ (store, effects) := by
  intro heq
  have hlength : (store.concat new).1.strings.length = store.strings.length := by rw [heq]
  rw [StringStore.concat] at hlength
  simp at hlength

/-- What a part of the visible text says of the `ShareString`. -/
theorem Inv.le_of_isPart (h : Inv store) (hp : store.string i = some p) {start count : ℕ}
    {part : Option (List UInt8)}
    (hpart : ∀ text, store.text i = some text → IsPart text start count part) :
    start + count ≤ p.length.toNat := by
  obtain ⟨text, htext, hlength⟩ := data_of_within (h.within i p hp)
  rw [← hlength]
  exact (hpart text ((text_of_string hp).trans htext)).1

/-- The end of a slice is included. -/
theorem toNat_slice_length {startIndex endIndex length : UInt64} (hlt : startIndex < endIndex)
    (hend : endIndex < length) :
    (endIndex - startIndex + 1).toNat = endIndex.toNat + 1 - startIndex.toNat := by
  rw [UInt64.lt_iff_toNat_lt] at hlt hend
  have hbound := length.toNat_lt
  rw [UInt64.toNat_add, UInt64.toNat_sub_of_le _ _ (UInt64.le_iff_toNat_le.mpr hlt.le)]
  change (_ + 1) % 2 ^ 64 = _
  rw [Nat.mod_eq_of_lt (by omega)]
  omega

/-! ## Counts -/

/-- **A count that is right** behind a copy can be raised. -/
theorem Inv.retainable_of_concat (h : Inv store)
    (hcounted : ∀ r, ((store.concat new).1.pool.reference r).count.toNat =
      (store.concat new).1.live r) : store.Retainable new := by
  intro r hr
  have hcount := hcounted r
  have hlive : (store.concat new).1.live r = store.live r + 1 := by
    rw [StringStore.concat, live, targets, List.map_append, ← weight_self r, ← hr]
    exact holders_concat store.targets _ r
  have hretained : ((store.concat new).1.pool.reference r).count.toNat =
      ((store.pool.reference r).count.toNat + 1) % 2 ^ 32 := by
    rw [StringStore.concat, hr]
    exact retain_count store.pool r
  rw [hlive, hretained, h.counted.counter] at hcount
  rw [h.counted.counter, ← hcount]
  exact Nat.mod_lt _ (by decide)

theorem Inv.assignable_of_assign (h : Inv store) (hp : store.string i = some p)
    (hq : store.string j = some q) (hnull : .nullReference ∉ (store.assign i j).2)
    (hcounted : ∀ r, ((store.assign i j).1.pool.reference r).count.toNat =
      (store.assign i j).1.live r) : store.Assignable i j p q := by
  have hij : i ≠ j := by
    rintro rfl
    exact hnull (assign_self hp)
  refine ⟨hij, or_iff_not_imp_left.mpr fun hne s hs => ?_⟩
  obtain ⟨r, hr, -⟩ := h.within i p hp
  have hrs : r ≠ s := by
    rintro rfl
    exact hne (hr.trans hs.symm)
  have hcount := hcounted s
  rw [assign_of_ne hp hq hij] at hcount
  have hlive : live ⟨((store.pool.checkReleaseCurrentData p.stringReference).2.retain
      q.stringReference).2, store.strings.set i (some q)⟩ s = store.live s + 1 := by
    have hset := holders_set (target_of_string hp) q.stringReference s
    rw [hr, hs, weight_of_ne hrs, weight_self] at hset
    rw [live, targets, List.map_set]
    simp only [Option.bind_some, hs]
    exact hset
  have hdropped := (h.counted.checkRelease (live_pos hp hr)).2.counter s
  rw [weight_of_ne hrs, Nat.sub_zero, ← hr] at hdropped
  dsimp only at hcount
  rw [hlive, hs, retain_count, hdropped] at hcount
  rw [h.counted.counter, ← hcount]
  exact Nat.mod_lt _ (by decide)

/-! ## Every operation -/

theorem inv_start [NeZero size] : Inv (start : StringStore size) where
  within := nofun
  counted := counted_initial

theorem text_of_string_none (h : store.string i = none) : store.text i = none := by
  rw [text, h]
  rfl

/-- A copy or a move. -/
theorem Inv.copy (h : Inv store) (hq : store.string j = some q) (hretain : store.Retainable q) :
    Accounted store changed (store.concat q) ∧
      ∀ text, store.text j = some text →
        (store.concat q).1.text store.strings.length = some text := by
  obtain ⟨r, hr, -⟩ := h.within j q hq
  have hconcat := h.concat changed (h.within j q hq) hr (live_pos hq hr) hretain
  refine ⟨hconcat.1, fun text htext => ?_⟩
  rw [hconcat.2, ← text_of_string hq, htext]

/-- **The step lemma.** -/
theorem Inv.step (h : Inv store) (hcareful : store.Careful operation) :
    Accounted store (Changes operation) (store.step operation) ∧ store.Gives operation := by
  have hnothing : Accounted store (Changes operation) (store, []) := h.unchanged (by simp) (by simp)
  have hthrown : Accounted store (Changes operation) (store, [.outOfRange]) :=
    h.unchanged (by simp) (by simp)
  cases operation with
  | default => exact h.construct _
  | ofString data => exact h.construct data
  | copyConstruct other | moveConstruct other =>
    simp only [Gives, StringStore.step]
    cases hq : store.string other with
    | none => exact ⟨hnothing, fun text htext => by simp [text_of_string_none hq] at htext⟩
    | some q => exact h.copy hq (hcareful q hq)
  | copyAssign this other | moveAssign this other =>
    simp only [Gives, StringStore.step]
    cases hp : store.string this with
    | none =>
      rw [assign_of_none (.inl hp)]
      exact ⟨hnothing, fun _ _ hlive => absurd rfl hlive⟩
    | some p =>
      cases hq : store.string other with
      | none =>
        rw [assign_of_none (.inr hq)]
        exact ⟨hnothing, fun text htext => by simp [text_of_string_none hq] at htext⟩
      | some q =>
        obtain ⟨haccounted, htext⟩ := h.assign hp hq (hcareful p q hp hq)
        exact ⟨haccounted, fun text hother _ => htext.trans hother⟩
  | fromSubstr this startIndex length =>
    simp only [Gives, StringStore.step]
    cases hp : store.string this with
    | none => exact ⟨hnothing, fun text htext => by simp [text_of_string_none hp] at htext⟩
    | some p =>
      dsimp only
      split
      case isTrue hle =>
        obtain ⟨hlt, hretain⟩ := hcareful p hp hle
        have hsum : startIndex.toNat + length.toNat ≤ p.length.toNat := by
          rw [UInt64.le_iff_toNat_le, UInt64.toNat_add, Nat.mod_eq_of_lt hlt] at hle
          exact hle
        obtain ⟨haccounted, hpart⟩ := h.slice hp hsum hretain
        exact ⟨haccounted, fun text htext => .inr (hpart text htext)⟩
      case isFalse => exact ⟨hthrown, fun _ _ => .inl rfl⟩
  | fromSubstrWithEnd this startIndex endIndex =>
    simp only [Gives, StringStore.step]
    cases hp : store.string this with
    | none => exact ⟨hnothing, fun text htext => by simp [text_of_string_none hp] at htext⟩
    | some p =>
      dsimp only
      split
      case isTrue hrange =>
        obtain ⟨hne, hretain⟩ := hcareful p hp hrange
        obtain ⟨-, hle, hlt⟩ := hrange
        have hend : endIndex < p.length := UInt64.lt_of_le_of_ne hle hne
        have hlength := toNat_slice_length hlt hend
        rw [UInt64.lt_iff_toNat_lt] at hlt hend
        have hsum : startIndex.toNat + (endIndex - startIndex + 1).toNat ≤ p.length.toNat := by
          rw [hlength]
          omega
        obtain ⟨haccounted, hpart⟩ := h.slice hp hsum hretain
        rw [hlength] at hpart
        exact ⟨haccounted, fun text htext => .inr ⟨hlt.le, hpart text htext⟩⟩
      case isFalse => exact ⟨hthrown, fun _ _ => .inl rfl⟩
  | destroy this =>
    simp only [Gives, StringStore.step]
    cases hp : store.string this with
    | none => exact ⟨hnothing, hp⟩
    | some p => exact ⟨h.destroy hp rfl, string_set_self (lt_of_string hp)⟩

/-- **An operation that goes right** met the condition. -/
theorem Inv.careful (h : Inv store) (hsound : Sound store operation) :
    store.Careful operation := by
  have hcounted := hsound.counted
  have hgives := hsound.gives
  cases operation with
  | default | ofString data | destroy this => exact trivial
  | copyConstruct other | moveConstruct other =>
    intro q hq
    simp only [StringStore.step, hq] at hcounted
    exact h.retainable_of_concat hcounted
  | copyAssign this other | moveAssign this other =>
    intro p q hp hq
    exact h.assignable_of_assign hp hq hsound.noNull hcounted
  | fromSubstr this startIndex length =>
    intro p hp hle
    simp only [StringStore.step, hp, if_pos hle] at hcounted
    simp only [Gives, StringStore.step, hp, if_pos hle] at hgives
    have hsum := h.le_of_isPart hp fun text htext =>
      (hgives text htext).resolve_left (concat_ne _ _ _)
    have hretain := h.retainable_of_concat hcounted
    have hbound := p.length.toNat_lt
    exact ⟨by omega, hretain⟩
  | fromSubstrWithEnd this startIndex endIndex =>
    intro p hp hrange
    simp only [StringStore.step, hp, if_pos hrange] at hcounted
    simp only [Gives, StringStore.step, hp, if_pos hrange] at hgives
    have hsum := h.le_of_isPart hp fun text htext =>
      ((hgives text htext).resolve_left (concat_ne _ _ _)).2
    have hretain := h.retainable_of_concat hcounted
    refine ⟨?_, hretain⟩
    rintro rfl
    omega

/-- **An operation goes right** exactly if it meets the condition. -/
theorem Inv.sound_iff_careful (h : Inv store) :
    Sound store operation ↔ store.Careful operation := by
  refine ⟨h.careful, fun hcareful => ?_⟩
  obtain ⟨haccounted, hgives⟩ := h.step hcareful
  exact haccounted.sound hgives

/-- **The strings of every program**: its operations go right exactly if they meet the condition. -/
theorem sound_along_iff [NeZero size] (operations : List StringOperation) :
    Run.Along (Run.next step) Sound (start : StringStore size) operations ↔
      Run.Along (Run.next step) Careful (start : StringStore size) operations :=
  Run.along_iff_of_invariant (L := fun _ _ => True)
    (fun _ _ hinv _ hcareful => (hinv.step hcareful).1.inv)
    (fun _ _ hinv _ => hinv.sound_iff_careful) inv_start
    (Run.along_of_forall (fun _ _ => trivial) _ _)

/-- A string is sliced, the slice is assigned to the string, and both are destroyed. -/
def sliceRun : List StringOperation :=
  [.ofString ⟨[97, 98, 99], by decide⟩, .fromSubstr 0 1 2, .moveAssign 0 1, .destroy 1, .destroy 0]

theorem sliceRun_sound_iff :
    Run.Along (Run.next step) Sound (start : StringStore 2) sliceRun ↔
      Run.Along (Run.next step) Careful (start : StringStore 2) sliceRun :=
  sound_along_iff sliceRun

/-- A string is assigned to itself. -/
def selfAssignment : List StringOperation := [.ofString ⟨[97, 98], by decide⟩, .copyAssign 0 0]

/-- A string is sliced up to its length. -/
def wholeSlice : List StringOperation :=
  [.ofString ⟨[97, 98], by decide⟩, .fromSubstrWithEnd 0 0 2]

/-- The string is released before it is retained through a null pointer, and the slice shows three
of two characters. -/
theorem selfAssignment_not_sound :
    Run.trace step (start : StringStore maxStringNum) selfAssignment =
        [.acquired 0, .released 0, .nullReference] ∧
      ¬ Run.Along (Run.next step) Sound (start : StringStore maxStringNum) selfAssignment ∧
      (Run.exec (Run.next step) (start : StringStore maxStringNum) wholeSlice).string 1 =
        some ⟨some 0, 0, 3⟩ ∧
      ¬ Run.Along (Run.next step) Sound (start : StringStore maxStringNum) wholeSlice := by
  refine ⟨by decide, fun hsound => ?_, by decide, fun hsound => ?_⟩
  · exact hsound.2.1.noNull (by decide)
  · obtain ⟨r, hr, hle⟩ := hsound.2.1.within 1 ⟨some 0, 0, 3⟩ (by decide)
    cases hr
    exact absurd hle (by decide)

end StringStore

end TradingEngine
