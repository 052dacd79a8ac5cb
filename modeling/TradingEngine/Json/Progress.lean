import Mathlib.Data.Fintype.Card
import Mathlib.Logic.Relation
import TradingEngine.Json.Operations

/-!
# Json/Progress — operations that run to their end

Where no container holds itself, a clone comes to an end and a slot is not destroyed by what it
held.  An assignment whose source is a slot has to find the slot when the target has been released:
`Survives` says that something else than the target keeps its container.  A careful operation fails
in one way only, by an empty pool (`Careful.failsOnly`).
-/

namespace TradingEngine

open JsonObjectCell Relation

variable {n m : ℕ}

/-- The container a place is a slot of. -/
def JsonPlace.container : JsonPlace n → Option (Fin n)
  | .handle _ => none
  | .field o _ | .element o _ => some o

namespace JsonStore

variable {R : JsonRegion n m} {s₀ s s₁ s' : JsonStore n m} {k : ℕ} {ts : List (JsonPointer n m)}
  {place target source : JsonPlace n} {old p q : JsonPointer n m} {o o' : Fin n} {v : Fin m}

/-! ## What is below an item -/

/-- The parts of a `Json`, itself included. -/
inductive Under (s : JsonStore n m) (p : JsonPointer n m) : JsonPointer n m → Prop
  | self : Under s p p
  | slot {x : Fin n} {r : JsonPointer n m} :
    Under s p (.object x) → r ∈ (s.objects x).pointers → Under s p r

/-- A container has a slot that holds another one. -/
def Contains (s : JsonStore n m) (o o' : Fin n) : Prop := .object o' ∈ (s.objects o).pointers

/-- **No container holds itself.** -/
def Acyclic (s : JsonStore n m) : Prop := ∀ o, ¬ TransGen s.Contains o o

theorem Under.reflTransGen (h : s.Under (.object o) q) (hq : q = .object o') :
    ReflTransGen s.Contains o o' := by
  induction h generalizing o' with
  | self =>
    cases hq
    exact .refl
  | slot _ hslot ih =>
    subst hq
    exact (ih rfl).tail hslot

/-- Only a container has parts. -/
theorem Under.eq_self (h : s.Under p q) (hp : ∀ o, p ≠ .object o) : q = p := by
  induction h with
  | self => rfl
  | slot _ _ ih => exact absurd ih.symm (hp _)

/-- What is below the content of a slot does not hold the slot. -/
theorem Acyclic.not_under (hs : Acyclic s) (hslot : p ∈ (s.objects o).pointers) :
    ¬ s.Under p (.object o) := by
  intro hunder
  cases p with
  | null => exact absurd (hunder.eq_self (by rintro _ ⟨⟩)) (by rintro ⟨⟩)
  | value v => exact absurd (hunder.eq_self (by rintro _ ⟨⟩)) (by rintro ⟨⟩)
  | object o' => exact hs o (.head' hslot (hunder.reflTransGen rfl))

/-- The containers below a container. -/
noncomputable def below (s : JsonStore n m) (o : Fin n) : Finset (Fin n) := by
  classical exact Finset.univ.filter fun o' => TransGen s.Contains o o'

theorem mem_below : o' ∈ s.below o ↔ TransGen s.Contains o o' := by
  classical
  rw [below, Finset.mem_filter]
  exact and_iff_right (Finset.mem_univ o')

/-- **Deeper down there are fewer containers.** -/
theorem Acyclic.card_below_lt (hs : Acyclic s) (h : s.Contains o o') :
    (s.below o').card < (s.below o).card := by
  refine Finset.card_lt_card (Finset.ssubset_iff_subset_ne.mpr ⟨fun x hx => ?_, fun heq => ?_⟩)
  · exact mem_below.mpr (.head h (mem_below.mp hx))
  · exact hs o' (mem_below.mp (heq ▸ mem_below.mpr (.single h)))

theorem Acyclic.card_below_lt_card (hs : Acyclic s) (o : Fin n) : (s.below o).card < n := by
  have hlt : (s.below o).card < (Finset.univ : Finset (Fin n)).card :=
    Finset.card_lt_card (Finset.ssubset_univ_iff.mpr fun heq =>
      hs o (mem_below.mp (heq ▸ Finset.mem_univ o)))
  rwa [Finset.card_univ, Fintype.card_fin] at hlt

/-! ## A clone comes to its end -/

/-- The pool that is empty. -/
def PoolEmpty (f : JsonFailure) : Prop := f = .noAvailableItems

theorem acquireValue_failsOnly (s : JsonStore n m) : Except.FailsOnly PoolEmpty s.acquireValue := by
  rw [acquireValue]
  split
  · exact .error rfl
  · exact .ok _

theorem acquireObject_failsOnly (s : JsonStore n m) :
    Except.FailsOnly PoolEmpty s.acquireObject := by
  rw [acquireObject]
  split
  · exact .error rfl
  · exact .ok _

theorem copy_failsOnly (s : JsonStore n m) (p : JsonPointer n m) :
    Except.FailsOnly PoolEmpty (s.copy p) := by
  cases p with
  | null => exact .ok _
  | value v => exact (acquireValue_failsOnly s).bind fun _ _ => .ok _
  | object o => exact .ok _

theorem cloneAll_failsOnly {clone : JsonStore n m → JsonPointer n m →
      Except JsonFailure (JsonPointer n m × JsonStore n m)}
    (hclone : ∀ {s s' : JsonStore n m} {ts : List (JsonPointer n m)} {p q : JsonPointer n m},
      Within R s₀ k s ts → s.InUse p → (R.quoted → R.items p) → clone s p = .ok (q, s') →
        CloneSpec R s₀ k s ts [p] [q] s') {ps : List (JsonPointer n m)}
    (hfails : ∀ {s₁ : JsonStore n m} {ts : List (JsonPointer n m)} {p : JsonPointer n m},
      Within R s₀ k s₁ ts → Extends s s₁ → p ∈ ps → Except.FailsOnly PoolEmpty (clone s₁ p))
    (h : Within R s₀ k s₁ ts) (hextends : Extends s s₁) (hps : ∀ p ∈ ps, s.InUse p)
    (hR : ¬ R.quoted) : Except.FailsOnly PoolEmpty (cloneAll clone s₁ ps) := by
  induction ps generalizing s₁ ts with
  | nil => exact .ok _
  | cons p ps ih =>
    obtain ⟨hp, hps⟩ := List.forall_mem_cons.mp hps
    refine (hfails h hextends List.mem_cons_self).bind ?_
    rintro ⟨q, s₂⟩ hone
    have hspec := hclone h (hextends.inUse hp) (fun hquoted => absurd hquoted hR) hone
    refine (ih (fun hs hext hmem => hfails hs hext (List.mem_cons_of_mem p hmem)) hspec.within
      (hextends.trans hspec.fresh) hps).bind ?_
    rintro ⟨qs, s₃⟩ -
    exact .ok _

/-- **A clone of what is not below itself comes to its end.** -/
theorem deepClone_failsOnly (hs : Acyclic s) (howned : Owned s ts) (hR : ¬ R.quoted) (fuel : ℕ) :
    ∀ {s₁ : JsonStore n m} {ts : List (JsonPointer n m)} {p : JsonPointer n m},
      Within R s₀ k s₁ ts → Extends s s₁ → s.InUse p →
        (∀ o, p = .object o → (s.below o).card < fuel) →
          Except.FailsOnly PoolEmpty (deepClone fuel s₁ p) := by
  induction fuel with
  | zero =>
    intro s₁ ts p h hextends hp hrank
    cases p with
    | null => exact .ok _
    | value v => exact copy_failsOnly s₁ _
    | object o => exact absurd (hrank o rfl) (Nat.not_lt_zero _)
  | succ fuel ih =>
    intro s₁ ts p h hextends hp hrank
    cases p with
    | null => exact .ok _
    | value v => exact copy_failsOnly s₁ _
    | object o =>
      have hslot : ∀ q ∈ (s.objects o).pointers, s.InUse q ∧
          ∀ o', q = .object o' → (s.below o').card < fuel := by
        refine fun q hq => ⟨howned.inUse_slot hq, fun o' ho' => ?_⟩
        subst ho'
        exact (hs.card_below_lt hq).trans_le (Nat.le_of_lt_succ (hrank o rfl))
      have hnever : ∀ q : JsonPointer n m, R.quoted → R.items q := fun _ hq => absurd hq hR
      refine (acquireObject_failsOnly s₁).bind ?_
      rintro ⟨clone, s₂⟩ hacquire
      obtain ⟨hs₂, -, -⟩ := h.acquireObject hacquire
      have hext₂ := hextends.trans (Extends.acquireObject hacquire).1
      have hsame₂ := hext₂.objects o hp
      have harrays : ∀ q ∈ (s₂.objects o).array, q ∈ (s.objects o).pointers :=
        fun q hq => mem_pointers_of_array (hsame₂ ▸ hq)
      refine (cloneAll_failsOnly (deepClone_spec fuel) (fun hw hext hmem => ih hw hext
        (hslot _ (harrays _ hmem)).1 (hslot _ (harrays _ hmem)).2) hs₂ hext₂
        (fun q hq => (hslot q (harrays q hq)).1) hR).bind ?_
      rintro ⟨array, s₃⟩ harray
      have hspec := cloneAll_spec (deepClone_spec fuel) hs₂
        (fun q hq => hext₂.inUse (hslot q (harrays q hq)).1) (fun hq q _ => hnever q hq) harray
      have hext₃ := hext₂.trans hspec.fresh
      have hsame₃ := hext₃.objects o hp
      have hfields : ∀ q ∈ (s₃.objects o).object.map (·.2), q ∈ (s.objects o).pointers :=
        fun q hq => List.mem_append_left _ (hsame₃ ▸ hq)
      refine (cloneAll_failsOnly (deepClone_spec fuel) (fun hw hext hmem => ih hw hext
        (hslot _ (hfields _ hmem)).1 (hslot _ (hfields _ hmem)).2) hspec.within hext₃
        (fun q hq => (hslot q (hfields q hq)).1) hR).bind ?_
      rintro ⟨fields, s₄⟩ -
      exact .ok _

/-! ## Slots that are not destroyed -/

/-- The invariant of every run: the counts are right, and what is free is quoted as long as nothing
came back unquoted. -/
structure Sound (s : JsonStore n m) : Prop where
  owned : Owned s []
  pool : s.unquotedReleases = 0 → ∀ v ∈ s.availableValues, (s.values v).isStringFormat = true

/-- The whole store. -/
def everything (n m : ℕ) : JsonRegion n m := ⟨fun _ => True, fun _ => True, False⟩

theorem Sound.everywhere (hs : Sound s) (hk : k + 1 < 2 ^ 32)
    (hroom : ∀ o, (s.objects o).referenceCount.toNat + k < 2 ^ 32) :
    Within (everything n m) s k s [] where
  owned := hs.owned
  inFlight := fun _ _ => trivial
  copies := hk
  room := hroom
  null := trivial
  freeObjects := fun _ _ => trivial
  freeValues := fun _ _ => trivial
  fresh := fun _ _ => trivial
  grown := le_rfl
  ofHandle := fun _ _ _ _ => trivial
  ofSlot := fun _ _ _ _ => trivial
  objects := fun _ ho => absurd trivial ho
  values := fun _ hv => absurd trivial hv
  others := fun _ hi => absurd trivial hi
  quoted := fun hzero v _ hor => hs.pool hzero v (hor.resolve_left id)
  history := le_rfl

theorem Sound.within (hs : Sound s) : Within (everything n m) s 0 s [] :=
  hs.everywhere (by decide) fun o => by
    rw [Nat.add_zero]
    exact UInt32.toNat_lt _

/-- The part of a store that is below an item. -/
def regionBelow (s : JsonStore n m) (p : JsonPointer n m) : JsonRegion n m where
  items q := q = .null ∨ ¬ s.InUse q ∨ s.Under p q
  handles i := s.handles.length ≤ i
  quoted := False

theorem assign_available (s : JsonStore n m) (p : JsonPointer n m) (place : JsonPlace n) :
    (s.assign p place).availableObjects = s.availableObjects ∧
      (s.assign p place).availableValues = s.availableValues ∧
        (s.assign p place).handles.length = s.handles.length := by
  cases place with
  | handle i => exact ⟨rfl, rfl, List.length_set⟩
  | field o key => exact ⟨rfl, rfl, rfl⟩
  | element o i => exact ⟨rfl, rfl, rfl⟩

/-- **A container outlives the release of what one of its slots held.** -/
theorem Sound.objects_empty (hs : Sound s) (hacyclic : Acyclic s)
    (hat : s.pointerAt place = some p) (hslot : p ∈ (s.objects o).pointers)
    (hothers : ∀ o', o' ≠ o → (s.assign .null place).objects o' = s.objects o') :
    ((s.assign .null place).release p).objects o = (s.assign .null place).objects o := by
  have hhas : (everything n m).Has place := by cases place <;> trivial
  have hassign := (Within.cons_null.mpr hs.within).assign hhas hat
  obtain ⟨hobjects, hvalues, hlength⟩ := assign_available s .null place
  have huse : o ∉ s.availableObjects := hs.owned.not_mem_of_slot (List.ne_nil_of_mem hslot)
  have hout : ¬ (regionBelow s p).items (.object o) := by
    rintro (hnull | hfree | hunder)
    · cases hnull
    · exact hfree huse
    · exact hacyclic.not_under hslot hunder
  have hwithin : Within (regionBelow s p) (s.assign .null place) 0 (s.assign .null place) [p] := {
    owned := hassign.owned
    inFlight := fun q hq => .inr (.inr (List.mem_singleton.mp hq ▸ .self))
    copies := hassign.copies
    room := hassign.room
    null := .inl rfl
    freeObjects := fun o' ho' => .inr (.inl fun hnot => hnot (hobjects ▸ ho'))
    freeValues := fun v hv => .inr (.inl fun hnot => hnot (hvalues ▸ hv))
    fresh := fun i hi => hlength.symm.trans_le hi
    grown := le_rfl
    ofHandle := fun i q hi hq => by
      rw [pointerAt, List.getElem?_eq_none (hlength.trans_le hi)] at hq
      cases hq
    ofSlot := fun o' ho' q hq => by
      have hne : o' ≠ o := fun heq => hout (heq ▸ ho')
      rw [hothers o' hne] at hq
      rcases ho' with hnull | hfree | hunder
      · cases hnull
      · exact absurd (hs.owned.not_mem_of_slot (List.ne_nil_of_mem hq)) hfree
      · exact .inr (.inr (hunder.slot hq))
    objects := fun _ _ => rfl
    values := fun _ _ => rfl
    others := fun _ _ => rfl
    quoted := fun hzero v _ hor => hassign.quoted hzero v trivial hor
    history := le_rfl }
  exact hwithin.release.objects o hout

/-- **A slot is not destroyed by the release of what it held.** -/
theorem Sound.pointerAt_empty (hs : Sound s) (hacyclic : Acyclic s)
    (hat : s.pointerAt place = some p) :
    ((s.assign .null place).release p).pointerAt place = some .null := by
  have hnull := pointerAt_assign hat .null
  cases place with
  | handle i =>
    rw [pointerAt, (release_slots _ p).1]
    exact hnull
  | field o key =>
    rw [pointerAt, hs.objects_empty hacyclic hat (mem_pointers_field hat)
      fun o' ho' => Function.update_of_ne ho' _ _]
    exact hnull
  | element o i =>
    rw [pointerAt, hs.objects_empty hacyclic hat (mem_pointers_element hat)
      fun o' ho' => Function.update_of_ne ho' _ _]
    exact hnull

/-- What a handle leads to. -/
def Reaches (s : JsonStore n m) (i : ℕ) (q : JsonPointer n m) : Prop :=
  ∃ p, s.pointerAt (.handle i) = some p ∧ s.Under p q

/-- **A container that a handle leads to outlives every release.** -/
theorem release_reaches (h : Owned s [p]) (hreach : ∃ i, s.Reaches i (.object o)) :
    ((s.release p).objects o).object = (s.objects o).object ∧
      ((s.release p).objects o).array = (s.objects o).array := by
  suffices hall : Owned (s.release p) [] ∧ (s.release p).handles = s.handles ∧
      ∀ o, (∃ i, s.Reaches i (.object o)) →
        ((s.release p).objects o).object = (s.objects o).object ∧
          ((s.release p).objects o).array = (s.objects o).array from hall.2.2 o hreach
  refine release_rule (P := fun s' ps => Owned s' ps ∧ s'.handles = s.handles ∧
      ∀ o, (∃ i, s.Reaches i (.object o)) → (s'.objects o).object = (s.objects o).object ∧
        (s'.objects o).array = (s.objects o).array) ?_ ?_ ?_ ?_ ⟨h, rfl, fun _ _ => ⟨rfl, rfl⟩⟩
  · exact fun s' ps hs' => ⟨Owned.cons_null.mp hs'.1, hs'.2⟩
  · exact fun s' v ps hs' => ⟨hs'.1.releaseValue, hs'.2⟩
  · rintro s' o' ps hone ⟨howned, hhandles, hsame⟩
    refine ⟨howned.clearObject hone, hhandles, fun x hx => ?_⟩
    -- the last holder is the one that gives up
    have hzero : s'.holders (.object o') = 0 := by
      have hcount := howned.count o'
      rw [hone, List.count_cons_self] at hcount
      have hnat : (1 : UInt32).toNat = 1 := rfl
      omega
    have hne : x ≠ o' := by
      rintro rfl
      obtain ⟨i, q, hq, hunder⟩ := hx
      cases hunder with
      | self =>
        have hat : s'.pointerAt (.handle i) = some (.object x) := by
          rw [pointerAt, hhandles]
          exact hq
        exact absurd hzero (holders_pos hat (by rintro ⟨⟩)).ne'
      | @slot y _ hunder hslot =>
        obtain ⟨hobject, harray⟩ := hsame y ⟨i, q, hq, hunder⟩
        rw [pointers, ← hobject, ← harray] at hslot
        exact absurd hzero (holders_pos_of_slot hslot).ne'
    have hother : (s'.clearObject o').objects x = s'.objects x := Function.update_of_ne hne _ _
    rw [hother]
    exact hsame x hx
  · rintro s' o' ps hone ⟨howned, hhandles, hsame⟩
    refine ⟨howned.decrement hone, hhandles, fun x hx => ?_⟩
    rcases eq_or_ne x o' with rfl | hne
    · rw [updateObject_self]
      exact hsame x hx
    · rw [updateObject_of_ne hne]
      exact hsame x hx

/-! ## Careful operations -/

/-- The container of a source is still led to by a handle when the target holds nothing. -/
def Survives (s : JsonStore n m) (target source : JsonPlace n) : Prop :=
  ∀ o, source.container = some o → ∃ i, (s.assign .null target).Reaches i (.object o)

/-- What the code relies on without a check. -/
def Relies (s : JsonStore n m) : JsonOperation n → Prop
  | .removeField target _ => s.pointerAt target ≠ some .null
  | .setIsStringFormat target _ => ∀ o, s.pointerAt target ≠ some (.object o)
  | .assignCopy target source | .assignMove target source =>
    target = source ∨ s.Survives target source
  | _ => True

/-- The copies that an operation makes leave the counts in range. -/
structure Fits (s : JsonStore n m) (op : JsonOperation n) : Prop where
  copies : op.copied.length + 1 < 2 ^ 32
  room : ∀ o, s.holders (.object o) + op.copied.length < 2 ^ 32

/-- **A careful operation**: its operands are there, no container holds itself, the counts stay in
range, and the code finds what it relies on. -/
structure Careful (s : JsonStore n m) (op : JsonOperation n) : Prop where
  present : s.Present op
  acyclic : s.Acyclic
  fits : s.Fits op
  relies : s.Relies op

theorem Sound.fits {op : JsonOperation n} (hs : Sound s) (hfits : s.Fits op) :
    Within (everything n m) s op.copied.length s [] :=
  hs.everywhere hfits.copies fun o => by
    have hcount := hs.owned.count o
    rw [List.count_nil] at hcount
    have hroom := hfits.room o
    omega

theorem read_failsOnly (h : (s.pointerAt place).isSome) : Except.FailsOnly PoolEmpty (s.read place) := by
  obtain ⟨p, hp⟩ := Option.isSome_iff_exists.mp h
  rw [read_eq_ok.mpr hp]
  exact .ok p

theorem put_failsOnly (h : (s.pointerAt place).isSome) (p : JsonPointer n m) :
    Except.FailsOnly PoolEmpty (s.put place p) := by
  rw [put_eq_ok.mpr ⟨Option.isSome_iff_exists.mp h, rfl⟩]
  exact .ok _

/-! ### Slots -/

theorem isSome_assign {place' : JsonPlace n} (h : (s.pointerAt place').isSome)
    (p : JsonPointer n m) (place : JsonPlace n) :
    ((s.assign p place).pointerAt place').isSome := by
  rcases eq_or_ne place' place with rfl | hne
  · obtain ⟨old, hold⟩ := Option.isSome_iff_exists.mp h
    rw [pointerAt_assign hold p]
    rfl
  · rw [pointerAt_assign_of_ne hne]
    exact h

theorem releaseAll_nil (fuel : ℕ) (s : JsonStore n m) : releaseAll fuel [] s = s := by
  cases fuel <;> rfl

/-- **A release that empties no container** leaves every slot. -/
theorem pointerAt_release_of_ne (hp : ∀ o, p = .object o → (s.objects o).referenceCount ≠ 1)
    (place : JsonPlace n) : (s.release p).pointerAt place = s.pointerAt place := by
  cases p with
  | null => rw [release, releaseAll, releaseAll_nil]
  | value v =>
    rw [release, releaseAll, releaseAll_nil]
    exact pointerAt_congr rfl (fun _ => ⟨rfl, rfl⟩) place
  | object o =>
    rw [release, releaseAll, if_neg (hp o rfl), releaseAll_nil]
    exact pointerAt_recount (· - 1) place

theorem checkCreateValue_failsOnly (hs : Sound s) (hacyclic : Acyclic s)
    (hplace : (s.pointerAt place).isSome) :
    Except.FailsOnly PoolEmpty (s.checkCreateValue place) := by
  refine (read_failsOnly hplace).bind fun p hread => ?_
  rw [read_eq_ok] at hread
  split
  case h_1 => exact .ok _
  case h_2 =>
    refine (acquireValue_failsOnly _).bind ?_
    rintro ⟨v, s₁⟩ hacquire
    refine (put_failsOnly ?_ _).bind fun _ _ => .ok _
    rw [pointerAt_acquireValue hacquire, hs.pointerAt_empty hacyclic hread]
    rfl

theorem checkCreateObject_failsOnly (hs : Sound s) (hacyclic : Acyclic s)
    (hplace : (s.pointerAt place).isSome) :
    Except.FailsOnly PoolEmpty (s.checkCreateObject place) := by
  refine (read_failsOnly hplace).bind fun p hread => ?_
  rw [read_eq_ok] at hread
  split
  case h_1 => exact .ok _
  case h_2 =>
    refine (acquireObject_failsOnly _).bind ?_
    rintro ⟨o, s₁⟩ hacquire
    refine (put_failsOnly ?_ _).bind fun _ _ => .ok _
    rw [pointerAt_acquireObject hacquire, hs.pointerAt_empty hacyclic hread]
    rfl

/-- A container that is made for a place destroys no slot. -/
theorem isSome_checkCreateObject {place' : JsonPlace n}
    (hok : s.checkCreateObject place = .ok (o, s')) (h : (s.pointerAt place').isSome) :
    (s'.pointerAt place').isSome := by
  obtain ⟨p, hread, hrest⟩ := Except.bind_eq_ok.mp hok
  split at hrest
  case h_1 =>
    cases hrest
    exact h
  case h_2 hobject =>
    obtain ⟨⟨o', s₁⟩, hacquire, hrest⟩ := Except.bind_eq_ok.mp hrest
    obtain ⟨s₂, hput, hrest⟩ := Except.bind_eq_ok.mp hrest
    cases hrest
    obtain ⟨-, rfl⟩ := put_eq_ok.mp hput
    refine isSome_assign ?_ _ _
    rw [pointerAt_acquireObject hacquire,
      pointerAt_release_of_ne fun o ho => absurd ho (hobject o)]
    exact isSome_assign h _ _

/-! ### Assignments -/

/-- **The source of an assignment outlives the release** of what the target held. -/
theorem Sound.pointerAt_survives (hs : Sound s) (htarget : s.pointerAt target = some old)
    (hsource : s.pointerAt source = some p) (hne : source ≠ target)
    (hsurvives : s.Survives target source) :
    ((s.assign .null target).release old).pointerAt source = some p := by
  have hhas : (everything n m).Has target := by cases target <;> trivial
  have hassign := (Within.cons_null.mpr hs.within).assign hhas htarget
  rw [← pointerAt_assign_of_ne hne .null] at hsource
  rw [← hsource]
  cases source with
  | handle i => rw [pointerAt, pointerAt, (release_slots _ old).1]
  | field o key =>
    rw [pointerAt, pointerAt, (release_reaches hassign.owned (hsurvives o rfl)).1]
  | element o i =>
    rw [pointerAt, pointerAt, (release_reaches hassign.owned (hsurvives o rfl)).2]

theorem assignCopy_failsOnly (hs : Sound s) (hacyclic : Acyclic s)
    (htarget : (s.pointerAt target).isSome) (hsource : (s.pointerAt source).isSome)
    (hsurvives : target = source ∨ s.Survives target source) :
    Except.FailsOnly PoolEmpty (s.assignCopy target source) := by
  rw [assignCopy]
  split
  case isTrue => exact .ok _
  case isFalse hne =>
    refine (read_failsOnly htarget).bind fun old hold => ?_
    rw [read_eq_ok] at hold
    obtain ⟨p, hp⟩ := Option.isSome_iff_exists.mp hsource
    have hread := hs.pointerAt_survives hold hp (Ne.symm hne) (hsurvives.resolve_left hne)
    refine (read_failsOnly (by rw [hread]; rfl)).bind fun p' _ => ?_
    refine (copy_failsOnly _ p').bind ?_
    rintro ⟨q, s₁⟩ hcopy
    refine put_failsOnly ?_ _
    rw [pointerAt_copy hcopy, hs.pointerAt_empty hacyclic hold]
    rfl

theorem assignMove_failsOnly (hs : Sound s) (hacyclic : Acyclic s)
    (htarget : (s.pointerAt target).isSome) (hsource : (s.pointerAt source).isSome)
    (hsurvives : target = source ∨ s.Survives target source) :
    Except.FailsOnly PoolEmpty (s.assignMove target source) := by
  rw [assignMove]
  split
  case isTrue => exact .ok _
  case isFalse hne =>
    refine (read_failsOnly htarget).bind fun old hold => ?_
    rw [read_eq_ok] at hold
    obtain ⟨p, hp⟩ := Option.isSome_iff_exists.mp hsource
    have hread := hs.pointerAt_survives hold hp (Ne.symm hne) (hsurvives.resolve_left hne)
    refine (read_failsOnly (by rw [hread]; rfl)).bind fun p' _ => ?_
    refine put_failsOnly (isSome_assign ?_ _ _) _
    rw [hs.pointerAt_empty hacyclic hold]
    rfl

/-! ### The pairs of a constructor -/

/-- A key that is there stays there when another one is added. -/
theorem isSome_lookup_append {key : List UInt8} {fs : List (List UInt8 × JsonPointer n m)}
    (h : (fs.lookup key).isSome) (gs : List (List UInt8 × JsonPointer n m)) :
    ((fs ++ gs).lookup key).isSome := by
  rw [List.lookup_append]
  cases hfs : fs.lookup key with
  | none =>
    rw [hfs] at h
    cases h
  | some p => rfl

/-- A container that only gains fields keeps its slots. -/
theorem isSome_updateObject {place' : JsonPlace n} {f : JsonObjectCell n m → JsonObjectCell n m}
    (h : (s.pointerAt place').isSome)
    (hobject : ∃ gs, (f (s.objects o)).object = (s.objects o).object ++ gs)
    (harray : (f (s.objects o)).array = (s.objects o).array) :
    ((s.updateObject o f).pointerAt place').isSome := by
  obtain ⟨gs, hobject⟩ := hobject
  cases place' with
  | handle i => exact h
  | field o' key =>
    rw [pointerAt] at h ⊢
    rcases eq_or_ne o' o with rfl | hne
    · rw [updateObject_self, hobject]
      exact isSome_lookup_append h gs
    · rwa [updateObject_of_ne hne]
  | element o' i =>
    rw [pointerAt] at h ⊢
    rcases eq_or_ne o' o with rfl | hne
    · rwa [updateObject_self, harray]
    · rwa [updateObject_of_ne hne]

/-- What is copied has two holders then. -/
theorem referenceCount_copy (h : Within R s₀ (k + 1) s ts) (hat : s.pointerAt place = some p)
    (hp : Accepts R p) (hok : s.copy p = .ok (q, s')) (hq : q = .object o) :
    (s'.objects o).referenceCount ≠ 1 := by
  have hcount := (h.copy hat hp hok).owned.count o
  cases p with
  | null =>
    cases hok
    cases hq
  | value v =>
    obtain ⟨⟨w, s₁⟩, -, hrest⟩ := Except.bind_eq_ok.mp hok
    cases hrest
    cases hq
  | object o' =>
    have hheld : s'.pointerAt place = some (.object o') := by rw [pointerAt_copy hok, hat]
    cases hok
    cases hq
    have hpos := holders_pos hheld (by rintro ⟨⟩)
    rw [List.count_cons_self] at hcount
    intro hone
    rw [hone] at hcount
    have hnat : (1 : UInt32).toNat = 1 := rfl
    omega

/-- A pair that is added destroys no slot. -/
theorem isSome_addPair {pair : List UInt8 × JsonPlace n} {place' : JsonPlace n}
    (h : Within R s₀ (k + 1) s ts) (hp : ∀ p, s.pointerAt pair.2 = some p → Accepts R p)
    (hok : s.addPair o pair = .ok s') (hplace : (s.pointerAt place').isSome) :
    (s'.pointerAt place').isSome := by
  obtain ⟨p, hread, hrest⟩ := Except.bind_eq_ok.mp hok
  rw [read_eq_ok] at hread
  obtain ⟨⟨q, s₁⟩, hcopy, hrest⟩ := Except.bind_eq_ok.mp hrest
  rw [← pointerAt_copy hcopy] at hplace
  dsimp only at hrest
  split at hrest
  case isTrue =>
    cases hrest
    rw [pointerAt_release_of_ne fun o' ho' => ?_]
    · exact isSome_updateObject hplace ⟨[], (List.append_nil _).symm⟩ rfl
    · have hne := referenceCount_copy h hread (hp p hread) hcopy ho'
      rcases eq_or_ne o' o with rfl | hother
      · rwa [updateObject_self]
      · rwa [updateObject_of_ne hother]
  case isFalse =>
    cases hrest
    exact isSome_updateObject hplace ⟨_, rfl⟩ rfl

theorem addPair_failsOnly {pair : List UInt8 × JsonPlace n} (h : (s.pointerAt pair.2).isSome) :
    Except.FailsOnly PoolEmpty (s.addPair o pair) := by
  refine (read_failsOnly h).bind fun p _ => (copy_failsOnly s p).bind ?_
  rintro ⟨q, s₁⟩ -
  dsimp only
  split
  · exact .ok _
  · exact .ok _

theorem constructPairs_failsOnly {pairs : List (List UInt8 × JsonPlace n)}
    (h : Within (everything n m) s pairs.length s [])
    (hpresent : ∀ place ∈ pairs.map (·.2), (s.pointerAt place).isSome) :
    Except.FailsOnly PoolEmpty (s.perform (.constructPairs pairs)) := by
  refine (acquireObject_failsOnly s).bind ?_
  rintro ⟨o, s₁⟩ hacquire
  obtain ⟨hs₁, -, -⟩ := h.acquireObject hacquire
  have haccepts : ∀ p : JsonPointer n m, Accepts (everything n m) p :=
    fun _ => ⟨fun _ _ => trivial, fun hquoted => hquoted.elim⟩
  refine Except.FailsOnly.foldlM (P := fun pairs s' => Within (everything n m) s pairs.length s' [] ∧
    s'.pointerAt (.handle s₁.handles.length) = some (.object o) ∧
      ∀ place ∈ pairs.map (·.2), (s'.pointerAt place).isSome) ?_ ?_
        ⟨hs₁.newHandle, pointerAt_newHandle s₁ _, fun place hplace => ?_⟩
  · rintro pair pairs s' ⟨-, -, hplaces⟩
    exact addPair_failsOnly (hplaces _ List.mem_cons_self)
  · rintro pair pairs s' s'' ⟨hs', hat, hplaces⟩ hok
    obtain ⟨hs'', hat'⟩ := hs'.addPair trivial hat (fun p _ => haccepts p) hok
    refine ⟨hs'', hat', fun place hplace => ?_⟩
    exact isSome_addPair hs' (fun p _ => haccepts p) hok (hplaces place (List.mem_cons_of_mem _ hplace))
  · have hsome := hpresent place hplace
    rw [← pointerAt_acquireObject hacquire] at hsome
    cases place with
    | handle i =>
      rw [pointerAt] at hsome ⊢
      obtain ⟨p, hp⟩ := Option.isSome_iff_exists.mp hsome
      obtain ⟨hi, -⟩ := List.getElem?_eq_some_iff.mp (Option.join_eq_some_iff.mp hp)
      rwa [newHandle, List.getElem?_append_left hi]
    | field o' key => exact hsome
    | element o' i => exact hsome

/-- A call on a container fails as the making of the container does. -/
theorem onContainer_failsOnly (hs : Sound s) (hacyclic : Acyclic s)
    (hplace : (s.pointerAt place).isSome) (f : Fin n → JsonStore n m → JsonStore n m) :
    Except.FailsOnly PoolEmpty (do
      let (o, s) ← s.checkCreateObject place
      return f o s) :=
  (checkCreateObject_failsOnly hs hacyclic hplace).bind fun _ _ => .ok _

/-- **A careful operation fails in one way only**: a pool is empty. -/
theorem Careful.failsOnly {op : JsonOperation n} (hop : s.Careful op) (hs : Sound s) :
    Except.FailsOnly PoolEmpty (s.perform op) := by
  have hacyclic := hop.acyclic
  have hrelies := hop.relies
  cases op with
  | construct => exact .ok _
  | constructScalar x => exact (acquireValue_failsOnly s).bind fun _ _ => .ok _
  | constructCopy source =>
    have hsource := hop.present source (List.mem_singleton_self _)
    exact (read_failsOnly hsource).bind fun p _ => (copy_failsOnly s p).bind fun _ _ => .ok _
  | constructMove source =>
    exact (read_failsOnly (hop.present source (List.mem_singleton_self _))).bind fun _ _ => .ok _
  | constructPairs pairs =>
    have hfits := hs.fits hop.fits
    have hlength : (JsonOperation.constructPairs pairs).copied.length = pairs.length :=
      List.length_map _
    rw [hlength] at hfits
    exact constructPairs_failsOnly hfits hop.present
  | destroy i =>
    exact (read_failsOnly (hop.present _ (List.mem_singleton_self _))).bind fun _ _ => .ok _
  | assignScalar target x =>
    have htarget := hop.present target (List.mem_singleton_self _)
    exact (checkCreateValue_failsOnly hs hacyclic htarget).bind fun _ _ => .ok _
  | assignCopy target source =>
    exact assignCopy_failsOnly hs hacyclic (hop.present target List.mem_cons_self)
      (hop.present source (List.mem_cons_of_mem _ (List.mem_singleton_self _))) hrelies
  | assignMove target source =>
    exact assignMove_failsOnly hs hacyclic (hop.present target List.mem_cons_self)
      (hop.present source (List.mem_cons_of_mem _ (List.mem_singleton_self _))) hrelies
  | pushBack target source =>
    have htarget := hop.present target List.mem_cons_self
    have hsource := hop.present source (List.mem_cons_of_mem _ (List.mem_singleton_self _))
    refine (checkCreateObject_failsOnly hs hacyclic htarget).bind ?_
    rintro ⟨o, s₁⟩ hcreate
    exact (read_failsOnly (isSome_checkCreateObject hcreate hsource)).bind fun p _ =>
      (copy_failsOnly s₁ p).bind fun _ _ => .ok _
  | removeField target key =>
    have htarget := hop.present target (List.mem_singleton_self _)
    refine (read_failsOnly htarget).bind fun p hread => ?_
    rw [read_eq_ok] at hread
    cases p with
    | null => exact absurd hread hrelies
    | value v => exact .ok _
    | object o => exact .ok _
  | indexKey target key =>
    exact onContainer_failsOnly hs hacyclic (hop.present target (List.mem_singleton_self _))
      fun o s => s.emplace o key
  | indexElement target index =>
    exact onContainer_failsOnly hs hacyclic (hop.present target (List.mem_singleton_self _))
      fun o s => s.growTo o index
  | setSize target size =>
    exact onContainer_failsOnly hs hacyclic (hop.present target (List.mem_singleton_self _))
      fun o s => s.setSize o size
  | setArray target =>
    exact onContainer_failsOnly hs hacyclic (hop.present target (List.mem_singleton_self _))
      fun o s => s.updateArray o id
  | reverse target =>
    exact onContainer_failsOnly hs hacyclic (hop.present target (List.mem_singleton_self _))
      fun o s => s.updateArray o List.reverse
  | sort target order =>
    exact onContainer_failsOnly hs hacyclic (hop.present target (List.mem_singleton_self _))
      fun o s => s.updateArray o (sorted order)
  | deepClone source =>
    refine (read_failsOnly (hop.present source (List.mem_singleton_self _))).bind fun p hread => ?_
    rw [read_eq_ok] at hread
    have huse := hs.owned.inUse_at hread
    refine (deepClone_failsOnly hacyclic hs.owned (R := everything n m) id (n + 1) hs.within
      (Extends.refl s) huse fun o _ => ?_).bind fun _ _ => .ok _
    exact (hacyclic.card_below_lt_card o).trans (Nat.lt_succ_self n)
  | setIsStringFormat target val =>
    have htarget := hop.present target (List.mem_singleton_self _)
    refine (read_failsOnly htarget).bind fun p hread => ?_
    rw [read_eq_ok] at hread
    cases p with
    | null => exact .ok _
    | value v => exact .ok _
    | object o => exact absurd hread (hrelies o)
  | queryString target =>
    refine (read_failsOnly (hop.present target (List.mem_singleton_self _))).bind fun p _ => ?_
    cases p with
    | null => exact .ok _
    | value v => exact .ok _
    | object o => exact .ok _

end JsonStore

end TradingEngine
