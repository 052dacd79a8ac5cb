import TradingEngine.Queue.MPSCQueue

/-!
# Queue/QueueOrder — the queue returns what was pushed, in order

Each atomic step keeps the invariant of `Queue/MPSCQueue`.  So the items returned are the first of
those claimed, a slot is written when its earlier items are gone, `push` throws that the queue is
full only when it is, and `pop` returns null only when the next item is not there or is null itself.
-/

namespace TradingEngine

open MPSCQueue

namespace QueueThreads

variable {τ : Type*} {capacity : ℕ} {s t : QueueThreads τ capacity} {producer other pos : ℕ}
  {item : Option τ} {point : PushPoint}

/-! ## Keeping what is known at a point -/

theorem getElem?_of_prefix {α : Type*} {l m : List α} (h : l <+: m) {i : ℕ} {a : α}
    (hi : l[i]? = some a) : m[i]? = some a := by
  obtain ⟨rest, rfl⟩ := h
  rw [List.getElem?_append_left (List.getElem?_eq_some_iff.mp hi).1, hi]

theorem PushOk.mono (h : s.PushOk producer item point)
    (hat : s.pushing producer = some (item, point)) (hfreed : s.freed ≤ t.freed)
    (hclaimed : s.claimed <+: t.claimed)
    (hholds : ∀ pos, s.Holds producer pos →
      t.freed ≤ pos ∧ (t.queue.slot pos).value = (s.queue.slot pos).value) :
    t.PushOk producer item point := by
  have hlength := hclaimed.length_le
  match point, h, hat with
  | .loadHead, _, _ => trivial
  | .loadSequence pos, hle, _ => exact Nat.le_trans hle hlength
  | .exchangeHead pos, ⟨hle, hlt⟩, _ => exact ⟨Nat.le_trans hle hlength, by omega⟩
  | .writeValue pos, ⟨_, hentry⟩, hat =>
    exact ⟨(hholds pos ⟨item, .inl hat⟩).1, getElem?_of_prefix hclaimed hentry⟩
  | .publish pos, ⟨_, hentry, hvalue⟩, hat =>
    obtain ⟨hge, hsame⟩ := hholds pos ⟨item, .inr hat⟩
    exact ⟨hge, getElem?_of_prefix hclaimed hentry, hsame.trans hvalue⟩
  | .addSize, _, _ => trivial

theorem PopOk.mono {point : PopPoint τ} (h : s.PopOk point) (hpopped : t.popped = s.popped)
    (htail : t.queue.tail = s.queue.tail) (hpublished : ∀ pos, s.Published pos → t.Published pos)
    (hitems : s.items <+: t.items) : t.PopOk point := by
  have hlength : s.popped.length = s.queue.tail → t.popped.length = t.queue.tail := by
    rw [hpopped, htail]
    exact id
  match point, h with
  | .idle, h => exact hlength h
  | .loadSequence pos, ⟨h, hpos⟩ => exact ⟨hlength h, hpos.trans htail.symm⟩
  | .takeValue pos, ⟨h, hpos, hpub⟩ =>
    exact ⟨hlength h, hpos.trans htail.symm, hpublished pos hpub⟩
  | .freeSlot pos item, ⟨h, hpos, hpub, hitem⟩ =>
    exact ⟨hlength h, hpos.trans htail.symm, hpublished pos hpub, getElem?_of_prefix hitems hitem⟩
  | .advanceTail pos item, ⟨h, hpos, hitem⟩ =>
    exact ⟨hlength h, hpos.trans htail.symm, getElem?_of_prefix hitems hitem⟩
  | .subSize item, ⟨h, hitem⟩ =>
    refine ⟨?_, ?_⟩
    · rw [hpopped, htail]
      exact h
    · rw [hpopped]
      exact getElem?_of_prefix hitems hitem

/-! ## The steps of a producer -/

/-- **A producer goes on**, from a point at which it holds no position to another one. -/
theorem Inv.moved (h : Inv s) (hold : ∀ pos, ¬ s.Holds producer pos)
    {call : Option (Option τ × PushPoint)}
    (hnew : ∀ pos, ¬ (s.goPush producer call).Holds producer pos)
    (hcall : ∀ item point, call = some (item, point) → s.PushOk producer item point) (size : ℕ)
    (called : List (ℕ × Option τ)) :
    Inv ({ s.goPush producer call with
      queue := { s.queue with size := size }
      called := called } : QueueThreads τ capacity) := by
  have hholds : ∀ other pos, (s.goPush producer call).Holds other pos ↔ s.Holds other pos := by
    intro other pos
    rcases eq_or_ne other producer with rfl | hne
    · exact iff_of_false (hnew pos) (hold pos)
    · exact holds_goPush_of_ne hne
  have hpublished : ∀ pos, (s.goPush producer call).Published pos ↔ s.Published pos :=
    fun pos => and_congr_right fun _ => forall_congr' fun other => not_congr (hholds other pos)
  exact
    { head := h.head
      freed_le := h.freed_le
      le_freed := h.le_freed
      published := fun pos hge hp => h.published pos hge ((hpublished pos).mp hp)
      unpublished := fun pos hge hlt hp =>
        h.unpublished pos hge hlt fun hold => hp ((hpublished pos).mpr hold)
      value := fun pos hge hp hpopping => h.value pos hge ((hpublished pos).mp hp) hpopping
      pushing := by
        intro other item point hat
        rcases eq_or_ne other producer with rfl | hne
        · exact hcall item point ((goPush_self call).symm.trans hat)
        · exact h.pushing other item point ((goPush_of_ne call hne).symm.trans hat)
      popping := h.popping.mono rfl rfl (fun pos hp => (hpublished pos).mpr hp) List.prefix_rfl
      popped := h.popped }

/-- **A producer claims a position.** -/
theorem Inv.claim (h : Inv s) (hat : s.pushing producer = some (item, .exchangeHead pos))
    (hhead : s.queue.head = pos) (hlt : pos + 1 < 2 ^ 64) :
    Inv ({ s.goPush producer (some (item, .writeValue pos)) with
        queue := { s.queue with head := toSize (pos + 1) }
        claimed := s.claimed ++ [(producer, item)] } : QueueThreads τ capacity) := by
  obtain ⟨hle, hturn⟩ := h.pushing producer item _ hat
  have hpos : pos = s.claimed.length := hhead.symm.trans h.head
  have hclaimed : s.claimed <+: s.claimed ++ [(producer, item)] := List.prefix_append ..
  have hitems : s.items <+: (s.claimed ++ [(producer, item)]).map (·.2) := hclaimed.map _
  have hnone : ∀ other, ¬ s.Holds producer other := by
    rintro other ⟨_, hwrite | hpublish⟩
    · rw [hat] at hwrite
      cases hwrite
    · rw [hat] at hpublish
      cases hpublish
  have hself : (s.goPush producer (some (item, .writeValue pos))).Holds producer pos :=
    holds_goPush_self.mpr ⟨item, .inl rfl⟩
  have hholds : ∀ q p, p ≠ pos →
      ((s.goPush producer (some (item, .writeValue pos))).Holds q p ↔ s.Holds q p) := by
    intro q p hne
    rcases eq_or_ne q producer with rfl | hq
    · refine iff_of_false ?_ (hnone p)
      rw [holds_goPush_self]
      rintro ⟨_, hwrite | hpublish⟩
      · cases hwrite
        exact hne rfl
      · cases hpublish
    · exact holds_goPush_of_ne hq
  have hpublished : ∀ p,
      Published ({ s.goPush producer (some (item, .writeValue pos)) with
        queue := { s.queue with head := toSize (pos + 1) }
        claimed := s.claimed ++ [(producer, item)] } : QueueThreads τ capacity) p ↔
      s.Published p := by
    intro p
    rcases eq_or_ne p pos with rfl | hne
    · refine iff_of_false (fun hp => hp.2 producer hself) fun hp => ?_
      have := hp.1
      omega
    · refine and_congr ?_ (forall_congr' fun q => not_congr (hholds q p hne))
      rw [List.length_append, List.length_singleton]
      omega
  exact
    { head := by
        rw [List.length_append, List.length_singleton, ← hpos]
        exact toSize_of_lt hlt
      freed_le := Nat.le_trans h.freed_le hclaimed.length_le
      le_freed := by
        rw [List.length_append, List.length_singleton, ← hpos]
        exact hturn
      published := fun p hge hp => h.published p hge ((hpublished p).mp hp)
      unpublished := fun p hge hlt hp =>
        h.unpublished p hge hlt fun hold => hp ((hpublished p).mpr hold)
      value := fun p hge hp hpopping =>
        getElem?_of_prefix hitems (h.value p hge ((hpublished p).mp hp) hpopping)
      pushing := by
        intro q item' point hq
        rcases eq_or_ne q producer with rfl | hne
        · obtain ⟨rfl, rfl⟩ := Prod.mk.inj (Option.some.inj ((goPush_self _).symm.trans hq))
          refine ⟨hpos ▸ h.freed_le, ?_⟩
          rw [hpos]
          exact List.getElem?_concat_length
        · have hq : s.pushing q = some (item', point) := (goPush_of_ne _ hne).symm.trans hq
          refine (h.pushing q item' point hq).mono hq le_rfl hclaimed fun p hp => ⟨?_, rfl⟩
          exact (h.claimed_of_holds hp).1
      popping := h.popping.mono rfl rfl (fun p hp => (hpublished p).mpr hp) hitems
      popped := h.popped.trans hitems }

/-- The slot of a position of this turn is that of no other position of this turn. -/
theorem Inv.slot_ne (h : Inv s) (hge : s.freed ≤ pos) (hlt : pos < s.claimed.length)
    (hother : s.freed ≤ other) (hother' : other < s.freed + capacity) (hne : other ≠ pos) :
    other % capacity ≠ pos % capacity := by
  have hle := h.le_freed
  exact fun hmod => hne (eq_of_mod_eq hmod hother hother' hge (by omega))

/-- **A producer writes its item** into a slot none of whose earlier items is left. -/
theorem Inv.writeValue (h : Inv s) (hat : s.pushing producer = some (item, .writeValue pos)) :
    Inv ({ s.goPush producer (some (item, .publish pos)) with
        queue := s.queue.setValue pos item } : QueueThreads τ capacity) := by
  obtain ⟨hge, hentry⟩ := h.pushing producer item _ hat
  have hlt := lt_of_claimed hentry
  have hle := h.le_freed
  have hself : s.Holds producer pos := ⟨item, .inl hat⟩
  have hholds : ∀ q p, (s.goPush producer (some (item, .publish pos))).Holds q p ↔ s.Holds q p := by
    intro q p
    rcases eq_or_ne q producer with rfl | hq
    · rw [holds_goPush_self, Holds, hat]
      simp
    · exact holds_goPush_of_ne hq
  have hpublished : ∀ p, (s.goPush producer (some (item, .publish pos))).Published p ↔
      s.Published p :=
    fun p => and_congr_right fun _ => forall_congr' fun q => not_congr (hholds q p)
  -- the position is not published, so no published one shares its slot
  have hvalue : ∀ p, s.freed ≤ p → p < s.freed + capacity → p ≠ pos →
      ((s.queue.setValue pos item).slot p).value = (s.queue.slot p).value := by
    intro p hp hp' hne
    rw [setValue, slot_setSlot_of_ne _ (h.slot_ne hge hlt hp hp' hne)]
  exact
    { head := h.head
      freed_le := h.freed_le
      le_freed := h.le_freed
      published := fun p hge hp =>
        (slot_setValue_sequence item).trans (h.published p hge ((hpublished p).mp hp))
      unpublished := fun p hge hlt hp =>
        (slot_setValue_sequence item).trans
          (h.unpublished p hge hlt fun hold => hp ((hpublished p).mpr hold))
      value := by
        intro p hp hpub hpopping
        have hpub : s.Published p := (hpublished p).mp hpub
        have hne : p ≠ pos := fun heq => (heq ▸ hpub).2 producer hself
        exact (h.value p hp hpub hpopping).trans
          (congrArg some (hvalue p hp (by have := hpub.1; omega) hne).symm)
      pushing := by
        intro q item' point hq
        rcases eq_or_ne q producer with rfl | hne
        · obtain ⟨rfl, rfl⟩ := Prod.mk.inj (Option.some.inj ((goPush_self _).symm.trans hq))
          refine ⟨hge, hentry, ?_⟩
          dsimp only
          rw [setValue, slot_setSlot_of_eq _ rfl]
        · have hq : s.pushing q = some (item', point) := (goPush_of_ne _ hne).symm.trans hq
          refine (h.pushing q item' point hq).mono hq le_rfl List.prefix_rfl fun p hp => ?_
          obtain ⟨hp', entry, hentry'⟩ := h.claimed_of_holds hp
          refine ⟨hp', hvalue p hp' (by have := lt_of_claimed hentry'; omega) ?_⟩
          rintro rfl
          exact hne (h.holder_eq hself hp)
      popping := h.popping.mono rfl rfl (fun p hp => (hpublished p).mpr hp) List.prefix_rfl
      popped := h.popped }

/-- **A producer publishes its item.** -/
theorem Inv.publish (h : Inv s) (hat : s.pushing producer = some (item, .publish pos))
    (hbounded : s.Bounded) :
    Inv ({ s.goPush producer (some (item, .addSize)) with
        queue := s.queue.setSequence pos (toSize (pos + 1)) } : QueueThreads τ capacity) := by
  obtain ⟨hge, hentry, hitem⟩ := h.pushing producer item _ hat
  have hlt := lt_of_claimed hentry
  have hle := h.le_freed
  have hpositions := hbounded.positions
  have hself : s.Holds producer pos := ⟨item, .inr hat⟩
  have hholds : ∀ q p, (s.goPush producer (some (item, .addSize))).Holds q p ↔
      s.Holds q p ∧ p ≠ pos := by
    intro q p
    rcases eq_or_ne q producer with rfl | hq
    · rw [holds_goPush_self, Holds, hat]
      simp [eq_comm]
    · rw [holds_goPush_of_ne hq]
      refine (and_iff_left_of_imp fun hp heq => ?_).symm
      exact hq (h.holder_eq hself (heq ▸ hp))
  have hpublished : ∀ p, (s.goPush producer (some (item, .addSize))).Published p ↔
      s.Published p ∨ p = pos := by
    intro p
    rcases eq_or_ne p pos with rfl | hne
    · exact iff_of_true ⟨hlt, fun q hq => ((hholds q p).mp hq).2 rfl⟩ (.inr rfl)
    · rw [or_iff_left hne]
      exact and_congr_right fun _ => forall_congr' fun q =>
        not_congr ((hholds q p).trans (and_iff_left hne))
  have hsequence : ∀ p, s.freed ≤ p → p < s.freed + capacity → p ≠ pos →
      ((s.queue.setSequence pos (toSize (pos + 1))).slot p).sequence =
        (s.queue.slot p).sequence := by
    intro p hp hp' hne
    rw [setSequence, slot_setSlot_of_ne _ (h.slot_ne hge hlt hp hp' hne)]
  exact
    { head := h.head
      freed_le := h.freed_le
      le_freed := h.le_freed
      published := by
        intro p hp hpub
        rcases eq_or_ne p pos with rfl | hne
        · dsimp only
          rw [setSequence, slot_setSlot_of_eq _ rfl]
          exact toSize_of_lt (by omega)
        · have hpub : s.Published p := ((hpublished p).mp hpub).resolve_right hne
          exact (hsequence p hp (by have := hpub.1; omega) hne).trans (h.published p hp hpub)
      unpublished := by
        intro p hp hp' hpub
        have hnot := not_or.mp fun hold => hpub ((hpublished p).mpr hold)
        exact (hsequence p hp hp' hnot.2).trans (h.unpublished p hp hp' hnot.1)
      value := by
        intro p hp hpub hpopping
        dsimp only
        rw [slot_setSequence_value]
        rcases (hpublished p).mp hpub with hold | rfl
        · exact h.value p hp hold hpopping
        · rw [hitem]
          exact (List.getElem?_map ..).trans (congrArg (Option.map Prod.snd) hentry)
      pushing := by
        intro q item' point hq
        rcases eq_or_ne q producer with rfl | hne
        · obtain ⟨rfl, rfl⟩ := Prod.mk.inj (Option.some.inj ((goPush_self _).symm.trans hq))
          trivial
        · have hq : s.pushing q = some (item', point) := (goPush_of_ne _ hne).symm.trans hq
          refine (h.pushing q item' point hq).mono hq le_rfl List.prefix_rfl fun p hp => ?_
          exact ⟨(h.claimed_of_holds hp).1, slot_setSequence_value _⟩
      popping := h.popping.mono rfl rfl (fun p hp => (hpublished p).mpr (.inl hp)) List.prefix_rfl
      popped := h.popped }

/-! ## The steps of the consumer -/

/-- **The consumer goes on** to a point at which the same slots are freed. -/
theorem Inv.moves (h : Inv s) (hvalue : ∀ pos item, s.popping ≠ .freeSlot pos item)
    {point : PopPoint τ} {tail size : ℕ} {popped : List (Option τ)}
    (hfreed : freed ({ s with
      queue := { s.queue with tail := tail, size := size }
      popping := point
      popped := popped } : QueueThreads τ capacity) = s.freed)
    (hpoint : PopOk ({ s with
      queue := { s.queue with tail := tail, size := size }
      popping := point
      popped := popped } : QueueThreads τ capacity) point)
    (hpopped : popped <+: s.items) :
    Inv ({ s with
      queue := { s.queue with tail := tail, size := size }
      popping := point
      popped := popped } : QueueThreads τ capacity) where
  head := h.head
  freed_le := hfreed ▸ h.freed_le
  le_freed := hfreed ▸ h.le_freed
  published := fun p hge hp => h.published p (hfreed ▸ hge) hp
  unpublished := fun p hge hlt hp => h.unpublished p (hfreed ▸ hge) (hfreed ▸ hlt) hp
  value := fun p hge hp _ => h.value p (hfreed ▸ hge) hp (hvalue p)
  pushing := fun q item point hq =>
    (h.pushing q item point hq).mono hq (Nat.le_of_eq hfreed.symm) List.prefix_rfl fun _ hp =>
      ⟨hfreed.symm ▸ (h.claimed_of_holds hp).1, rfl⟩
  popping := hpoint
  popped := hpopped

/-- **The consumer takes the item** of its position. -/
theorem Inv.takeValue (h : Inv s) (hat : s.popping = .takeValue pos) :
    Inv ({ s with
      queue := s.queue.setValue pos none
      popping := .freeSlot pos (s.queue.slot pos).value } : QueueThreads τ capacity) := by
  have hok := h.popping
  rw [hat] at hok
  obtain ⟨hlength, hpos, hpub⟩ := hok
  have hfreed : s.freed = s.queue.tail := by rw [freed, hat]
  have hge : s.freed ≤ pos := by omega
  have hle := h.le_freed
  have hle' : s.claimed.length ≤ s.queue.tail + capacity := hfreed ▸ hle
  have hitem : s.items[pos]? = some (s.queue.slot pos).value :=
    h.value pos hge hpub fun item => by simp [hat]
  have hvalue : ∀ p, s.freed ≤ p → p < s.freed + capacity → p ≠ pos →
      ((s.queue.setValue pos none).slot p).value = (s.queue.slot p).value := by
    intro p hp hp' hne
    rw [setValue, slot_setSlot_of_ne _ (h.slot_ne hge hpub.1 hp hp' hne)]
  exact
    { head := h.head
      freed_le := hfreed.symm.trans_le h.freed_le
      le_freed := hle'
      published := fun p hp hp' =>
        (slot_setValue_sequence none).trans (h.published p (hfreed.trans_le hp) hp')
      unpublished := fun p hp hp' hnot =>
        (slot_setValue_sequence none).trans
          (h.unpublished p (hfreed.trans_le hp) (hfreed.symm ▸ hp') hnot)
      value := by
        intro p hp hp' hpopping
        have hp : s.freed ≤ p := hfreed.trans_le hp
        have hne : p ≠ pos := by
          rintro rfl
          exact hpopping _ rfl
        refine (h.value p hp hp' fun item => by simp [hat]).trans (congrArg some ?_)
        have hlt : p < s.claimed.length := hp'.1
        exact (hvalue p hp (by omega) hne).symm
      pushing := by
        intro q item point hq
        refine (h.pushing q item point hq).mono hq (Nat.le_of_eq hfreed) List.prefix_rfl
          fun p hp => ?_
        obtain ⟨hp', entry, hentry⟩ := h.claimed_of_holds hp
        refine ⟨hfreed.symm.trans_le hp', hvalue p hp' (by have := lt_of_claimed hentry; omega) ?_⟩
        rintro rfl
        exact hpub.2 q hp
      popping := ⟨hlength, hpos, hpub, hitem⟩
      popped := h.popped }

/-- **The consumer frees the slot** of its position, for the producer of the next turn. -/
theorem Inv.freeSlot (h : Inv s) (hat : s.popping = .freeSlot pos item) (hbounded : s.Bounded) :
    Inv ({ s with
      queue := s.queue.setSequence pos (toSize (pos + capacity))
      popping := .advanceTail pos item } : QueueThreads τ capacity) := by
  have hok := h.popping
  rw [hat] at hok
  obtain ⟨hlength, hpos, hpub, hitem⟩ := hok
  have hfreed : s.freed = pos := by rw [freed, hat, hpos]
  have hle := h.le_freed
  have hlt := hpub.1
  obtain ⟨hgt, hobject, hpositions⟩ := hbounded
  have hsequence : ∀ p, s.freed ≤ p → p < s.freed + capacity → p ≠ pos →
      ((s.queue.setSequence pos (toSize (pos + capacity))).slot p).sequence =
        (s.queue.slot p).sequence := by
    intro p hp hp' hne
    rw [setSequence, slot_setSlot_of_ne _ (h.slot_ne (by omega) hlt hp hp' hne)]
  exact
    { head := h.head
      freed_le := hlt
      le_freed := by
        change s.claimed.length ≤ pos + 1 + capacity
        omega
      published := by
        intro p hp hp'
        have hp : pos + 1 ≤ p := hp
        have hlt' : p < s.claimed.length := hp'.1
        exact (hsequence p (by omega) (by omega) (by omega)).trans (h.published p (by omega) hp')
      unpublished := by
        intro p hp hp' hnot
        have hp : pos + 1 ≤ p := hp
        have hp' : p < pos + 1 + capacity := hp'
        rcases Nat.lt_or_ge p (pos + capacity) with hold | hnew
        · exact (hsequence p (by omega) (by omega) (by omega)).trans
            (h.unpublished p (by omega) (by omega) hnot)
        · obtain rfl : p = pos + capacity := by omega
          dsimp only
          rw [setSequence, slot_setSlot_of_eq _ (Nat.add_mod_right ..)]
          exact toSize_of_lt (by omega)
      value := by
        intro p hp hp' _
        have hp : pos + 1 ≤ p := hp
        refine (h.value p (by omega) hp' fun item' heq => ?_).trans ?_
        · rw [hat] at heq
          cases heq
          omega
        · rw [slot_setSequence_value]
      pushing := by
        intro q item' point hq
        have hnext : s.freed ≤ pos + 1 := by omega
        refine (h.pushing q item' point hq).mono hq hnext List.prefix_rfl fun p hp => ?_
        refine ⟨?_, slot_setSequence_value _⟩
        have hge := (h.claimed_of_holds hp).1
        have hne : p ≠ pos := fun heq => hpub.2 q (heq ▸ hp)
        change pos + 1 ≤ p
        omega
      popping := ⟨hlength, hpos, hitem⟩
      popped := h.popped }

/-! ## One step -/

theorem inv_start (name : String) (isPointer : Bool) :
    Inv (start name isPointer : QueueThreads τ capacity) where
  head := rfl
  freed_le := le_rfl
  le_freed := Nat.zero_le _
  published := fun _ _ hp => absurd hp.1 (Nat.not_lt_zero _)
  unpublished := fun pos _ hlt _ => Nat.mod_eq_of_lt (by simpa [start, freed, construct] using hlt)
  value := fun _ _ hp => absurd hp.1 (Nat.not_lt_zero _)
  pushing := nofun
  popping := rfl
  popped := List.prefix_rfl

/-- One slot at most is freed before its item is returned. -/
theorem Inv.freed_le_popped (h : Inv s) :
    s.popped.length ≤ s.freed ∧ s.freed ≤ s.popped.length + 1 := by
  have hok := h.popping
  rw [freed]
  split
  case h_1 hat =>
    rw [hat] at hok
    obtain ⟨hlength, hpos, -⟩ := hok
    omega
  case h_2 =>
    have hlength : s.popped.length = s.queue.tail ∨ s.popped.length + 1 = s.queue.tail := by
      match s.popping, hok with
      | .idle, hok => exact .inl hok
      | .loadSequence _, hok => exact .inl hok.1
      | .takeValue _, hok => exact .inl hok.1
      | .freeSlot _ _, hok => exact .inl hok.1
      | .advanceTail _ _, hok => exact .inl hok.1
      | .subSize _, hok => exact .inr hok.1
    omega

/-- What is asked of a queue: more than one slot, in an array that is an object, and fewer than
`2 ^ 63` operations. -/
structure Few (s : QueueThreads τ capacity) : Prop where
  capacity_gt : 1 < capacity
  capacity_lt : capacity * 64 < 2 ^ 63
  operations : s.operations < 2 ^ 63

theorem Inv.bounded (h : Inv s) (hfew : s.Few) : s.Bounded := by
  obtain ⟨hgt, hlt, hoperations⟩ := hfew
  refine ⟨hgt, hlt, ?_⟩
  have hle := h.freed_le_popped.2
  rw [operations] at hoperations
  omega

/-- A producer at a point at which it holds no position. -/
theorem not_holds (hat : s.pushing producer = some (item, point))
    (hpoint : ∀ pos, point ≠ .writeValue pos ∧ point ≠ .publish pos) (pos : ℕ) :
    ¬ s.Holds producer pos := by
  rintro ⟨item', hwrite | hpublish⟩
  · rw [hat] at hwrite
    exact (hpoint pos).1 (Prod.mk.inj (Option.some.inj hwrite)).2
  · rw [hat] at hpublish
    exact (hpoint pos).2 (Prod.mk.inj (Option.some.inj hpublish)).2

theorem not_holds_none (hat : s.pushing producer = none) (pos : ℕ) : ¬ s.Holds producer pos := by
  rintro ⟨item', hwrite | hpublish⟩
  · rw [hat] at hwrite
    cases hwrite
  · rw [hat] at hpublish
    cases hpublish

/-- **A producer goes on** to a point at which it holds no position. -/
theorem Inv.goPush (h : Inv s) (hold : ∀ pos, ¬ s.Holds producer pos)
    (hpoint : ∀ pos, point ≠ .writeValue pos ∧ point ≠ .publish pos)
    (hok : s.PushOk producer item point) : Inv (s.goPush producer (some (item, point))) := by
  refine h.moved hold (not_holds (goPush_self _) hpoint) (fun item' point' heq => ?_) _ _
  obtain ⟨rfl, rfl⟩ := Prod.mk.inj (Option.some.inj heq)
  exact hok

/-- **A producer returns.** -/
theorem Inv.endPush (h : Inv s) (hold : ∀ pos, ¬ s.Holds producer pos) (size : ℕ) :
    Inv ({ s.goPush producer none with queue := { s.queue with size := size } } :
      QueueThreads τ capacity) :=
  h.moved hold (not_holds_none (goPush_self none)) nofun size s.called

theorem Inv.callPush (h : Inv s) (producer : ℕ) (item : Option τ) :
    Inv (s.callPush producer item).1 := by
  rw [QueueThreads.callPush]
  split
  case h_1 => exact h
  case h_2 hat =>
    split
    case isTrue => exact h
    case isFalse =>
      refine h.moved (not_holds_none hat) (not_holds (goPush_self _) (by simp)) ?_ s.queue.size _
      intro item' point' heq
      obtain ⟨rfl, rfl⟩ := Prod.mk.inj (Option.some.inj heq)
      trivial

theorem Inv.stepPush (h : Inv s) (hfew : s.Few)
    (hat : s.pushing producer = some (item, point)) (fails : Bool) :
    Inv (s.stepPush producer item fails point).1 := by
  have hbounded := h.bounded hfew
  have hlength : s.claimed.length < 2 ^ 63 := by
    have := hfew.operations
    rw [operations] at this
    omega
  have hok := h.pushing producer item point hat
  cases point with
  | loadHead => exact h.goPush (not_holds hat (by simp)) (by simp) h.head.le
  | loadSequence pos =>
    have hold := not_holds hat (by simp)
    have hcases := h.diff_cases hbounded hok
    simp only [QueueThreads.stepPush]
    split
    case isTrue hzero => exact h.goPush hold (by simp) ⟨hok, hcases.1 hzero⟩
    case isFalse =>
      split
      case isTrue => exact h.endPush hold s.queue.size
      case isFalse => exact h.goPush hold (by simp) trivial
  | exchangeHead pos =>
    rw [QueueThreads.stepPush]
    split
    case isTrue hhead => exact h.claim hat hhead.1 (by have := hok.1; omega)
    case isFalse => exact h.goPush (not_holds hat (by simp)) (by simp) h.head.le
  | writeValue pos => exact h.writeValue hat
  | publish pos => exact h.publish hat hbounded
  | addSize => exact h.endPush (not_holds hat (by simp)) _

theorem Inv.callPop (h : Inv s) : Inv s.callPop := by
  rw [QueueThreads.callPop]
  split
  case h_1 hat =>
    have hok := h.popping
    rw [hat] at hok
    exact h.moves (by simp [hat]) (by rw [freed, freed, hat]) ⟨hok, rfl⟩ h.popped
  case h_2 => exact h

/-- **The consumer advances the tail.** -/
theorem Inv.advanceTail (h : Inv s) (hat : s.popping = .advanceTail pos item)
    (hbounded : s.Bounded) :
    Inv ({ s with
      queue := { s.queue with tail := toSize (pos + 1) }
      popping := .subSize item } : QueueThreads τ capacity) := by
  have hok := h.popping
  rw [hat] at hok
  obtain ⟨hlength, hpos, hitem⟩ := hok
  have hfreed : s.freed = pos + 1 := by rw [freed, hat]
  have htail : toSize (pos + 1) = pos + 1 := by
    have hle := h.freed_le
    have hpositions := hbounded.positions
    exact toSize_of_lt (by omega)
  rw [htail]
  refine h.moves (by simp [hat]) hfreed.symm ⟨?_, ?_⟩ h.popped
  · rw [hlength, ← hpos]
  · rw [hlength, ← hpos]
    exact hitem

/-- **The consumer returns the item.** -/
theorem Inv.returnItem (h : Inv s) (hat : s.popping = .subSize item) (size : ℕ) :
    Inv ({ s with
      queue := { s.queue with size := size }
      popping := .idle
      popped := s.popped ++ [item] } : QueueThreads τ capacity) := by
  have hok := h.popping
  rw [hat] at hok
  obtain ⟨hlength, hitem⟩ := hok
  have hfreed : s.freed = s.queue.tail := by rw [freed, hat]
  refine h.moves (by simp [hat]) hfreed.symm ?_ ?_
  · exact (List.length_append ..).trans hlength
  · obtain ⟨rest, hrest⟩ := h.popped
    rw [← hrest, List.getElem?_append_right le_rfl, Nat.sub_self] at hitem
    obtain ⟨rest', rfl⟩ : ∃ rest', rest = item :: rest' :=
      List.head?_eq_some_iff.mp (List.head?_eq_getElem?.trans hitem)
    exact ⟨rest', (List.append_assoc ..).trans hrest⟩

theorem Inv.stepPop (h : Inv s) (hfew : s.Few) : Inv (s.stepPop s.popping).1 := by
  have hbounded := h.bounded hfew
  have hok := h.popping
  have hpopped := h.popped
  match hat : s.popping, hok with
  | .idle, _ => exact h
  | .loadSequence pos, ⟨hlength, hpos⟩ =>
    have hfreed : s.freed = pos := by rw [freed, hat, hpos]
    rw [QueueThreads.stepPop]
    split
    case isTrue hzero =>
      have hpub : s.Published pos := hfreed ▸ (h.diff_tail hbounded).mp (hfreed.symm ▸ hzero)
      exact h.moves (by simp [hat]) (by rw [hfreed, hpos]; rfl) ⟨hlength, hpos, hpub⟩ hpopped
    case isFalse => exact h.moves (by simp [hat]) (by rw [hfreed, hpos]; rfl) hlength hpopped
  | .takeValue pos, _ => exact h.takeValue hat
  | .freeSlot pos item, _ => exact h.freeSlot hat hbounded
  | .advanceTail pos item, _ => exact h.advanceTail hat hbounded
  | .subSize item, _ => exact h.returnItem hat _

/-- **The step lemma.** -/
theorem Inv.step (h : Inv s) (hfew : s.Few) (event : QueueEvent τ) : Inv (s.step event).1 := by
  cases event with
  | push producer item => exact h.callPush producer item
  | pushStep producer fails =>
    rw [QueueThreads.step]
    split
    case h_1 => exact h
    case h_2 hat => exact h.stepPush hfew hat fails
  | pop => exact h.callPop
  | popStep => exact h.stepPop hfew

/-! ## The order of the calls -/

/-- The claimed items of each producer stand in the order of its calls, and a call that has not
claimed a position is its last. -/
structure CallsInOrder (s : QueueThreads τ capacity) : Prop where
  claimed : ∀ producer,
    (s.claimed.filter (·.1 = producer)).Sublist (s.called.filter (·.1 = producer))
  pushing : ∀ producer item point, s.pushing producer = some (item, point) →
    (∃ pos, point = .loadHead ∨ point = .loadSequence pos ∨ point = .exchangeHead pos) →
    ∃ calls, s.called.filter (·.1 = producer) = calls ++ [(producer, item)] ∧
      (s.claimed.filter (·.1 = producer)).Sublist calls
  notNull : s.queue.isPointer = true → ∀ call ∈ s.called, call.2 ≠ none

theorem filter_concat_self {l : List (ℕ × Option τ)} :
    (l ++ [(producer, item)]).filter (·.1 = producer) =
      l.filter (·.1 = producer) ++ [(producer, item)] := by simp

theorem filter_concat_of_ne {l : List (ℕ × Option τ)} (h : producer ≠ other) :
    (l ++ [(producer, item)]).filter (·.1 = other) = l.filter (·.1 = other) := by simp [h]

/-- **A producer goes on** in its call, or ends it. -/
theorem CallsInOrder.goPush (h : CallsInOrder s) {queue : MPSCQueue τ capacity}
    (hpointer : queue.isPointer = s.queue.isPointer) {call : Option (Option τ × PushPoint)}
    (hcall : ∀ item point, call = some (item, point) →
      (∃ pos, point = .loadHead ∨ point = .loadSequence pos ∨ point = .exchangeHead pos) →
      ∃ calls, s.called.filter (·.1 = producer) = calls ++ [(producer, item)] ∧
        (s.claimed.filter (·.1 = producer)).Sublist calls) :
    CallsInOrder ({ s.goPush producer call with queue := queue } : QueueThreads τ capacity) where
  claimed := h.claimed
  pushing := by
    intro q item' point' hq hpoint
    rcases eq_or_ne q producer with rfl | hne
    · exact hcall item' point' ((goPush_self call).symm.trans hq) hpoint
    · exact h.pushing q item' point' ((goPush_of_ne call hne).symm.trans hq) hpoint
  notNull := hpointer ▸ h.notNull

/-- **A producer calls `push`.** -/
theorem CallsInOrder.callPush (h : CallsInOrder s) (producer : ℕ) (item : Option τ) :
    CallsInOrder (s.callPush producer item).1 := by
  rw [QueueThreads.callPush]
  split
  case h_1 => exact h
  case h_2 =>
    split
    case isTrue => exact h
    case isFalse hnull =>
      refine ⟨fun q => ?_, fun q item' point' hq hpoint => ?_, fun hpointer call hcall => ?_⟩
      · refine (h.claimed q).trans ?_
        exact (List.sublist_append_left ..).filter _
      · rcases eq_or_ne q producer with rfl | hne
        · obtain ⟨rfl, rfl⟩ := Prod.mk.inj (Option.some.inj ((goPush_self _).symm.trans hq))
          exact ⟨_, filter_concat_self, h.claimed q⟩
        · have hq : s.pushing q = some (item', point') := (goPush_of_ne _ hne).symm.trans hq
          obtain ⟨calls, hcalls, hsub⟩ := h.pushing q item' point' hq hpoint
          exact ⟨calls, (filter_concat_of_ne hne.symm).trans hcalls, hsub⟩
      · rcases List.mem_append.mp hcall with hold | hnew
        · exact h.notNull hpointer call hold
        · obtain rfl := List.mem_singleton.mp hnew
          exact fun heq => hnull ⟨hpointer, heq⟩

/-- **A producer claims the position of its call.** -/
theorem CallsInOrder.claim (h : CallsInOrder s)
    (hat : s.pushing producer = some (item, .exchangeHead pos)) (head : ℕ) :
    CallsInOrder ({ s.goPush producer (some (item, .writeValue pos)) with
        queue := { s.queue with head := head }
        claimed := s.claimed ++ [(producer, item)] } : QueueThreads τ capacity) := by
  obtain ⟨calls, hcalls, hsub⟩ := h.pushing producer item _ hat ⟨pos, .inr (.inr rfl)⟩
  refine ⟨fun q => ?_, fun q item' point' hq hpoint => ?_, h.notNull⟩
  · rcases eq_or_ne producer q with rfl | hne
    · rw [filter_concat_self]
      exact hcalls ▸ hsub.append_right _
    · rw [filter_concat_of_ne hne]
      exact h.claimed q
  · rcases eq_or_ne q producer with rfl | hne
    · obtain ⟨rfl, rfl⟩ := Prod.mk.inj (Option.some.inj ((goPush_self _).symm.trans hq))
      obtain ⟨_, hpoint⟩ := hpoint
      simp at hpoint
    · have hq : s.pushing q = some (item', point') := (goPush_of_ne _ hne).symm.trans hq
      obtain ⟨calls', hcalls', hsub'⟩ := h.pushing q item' point' hq hpoint
      exact ⟨calls', hcalls', (filter_concat_of_ne hne.symm).symm ▸ hsub'⟩

theorem CallsInOrder.stepPush (h : CallsInOrder s)
    (hat : s.pushing producer = some (item, point)) (fails : Bool) :
    CallsInOrder (s.stepPush producer item fails point).1 := by
  -- the call stays the last one until it claims a position
  have hstays : (∃ pos, point = .loadHead ∨ point = .loadSequence pos ∨ point = .exchangeHead pos) →
      ∀ point', CallsInOrder (s.goPush producer (some (item, point'))) := by
    intro hpoint point'
    refine h.goPush rfl fun item' point'' heq _ => ?_
    obtain ⟨rfl, rfl⟩ := Prod.mk.inj (Option.some.inj heq)
    exact h.pushing producer item point hat hpoint
  have hclaimed : ∀ queue : MPSCQueue τ capacity, queue.isPointer = s.queue.isPointer →
      ∀ point', (¬ ∃ pos, point' = .loadHead ∨ point' = .loadSequence pos ∨
        point' = .exchangeHead pos) →
      CallsInOrder ({ s.goPush producer (some (item, point')) with queue := queue } :
        QueueThreads τ capacity) := by
    intro queue hpointer point' hnot
    refine h.goPush hpointer fun item' point'' heq hpoint => absurd hpoint ?_
    obtain ⟨rfl, rfl⟩ := Prod.mk.inj (Option.some.inj heq)
    exact hnot
  have hends : ∀ queue : MPSCQueue τ capacity, queue.isPointer = s.queue.isPointer →
      CallsInOrder ({ s.goPush producer none with queue := queue } : QueueThreads τ capacity) :=
    fun queue hpointer => h.goPush hpointer nofun
  cases point with
  | loadHead => exact hstays ⟨0, .inl rfl⟩ _
  | loadSequence pos =>
    simp only [QueueThreads.stepPush]
    split
    case isTrue => exact hstays ⟨pos, .inr (.inl rfl)⟩ _
    case isFalse =>
      split
      case isTrue => exact hends s.queue rfl
      case isFalse => exact hstays ⟨pos, .inr (.inl rfl)⟩ _
  | exchangeHead pos =>
    rw [QueueThreads.stepPush]
    split
    case isTrue => exact h.claim hat _
    case isFalse => exact hstays ⟨pos, .inr (.inr rfl)⟩ _
  | writeValue pos => exact hclaimed _ (by rfl) (.publish pos) (by simp)
  | publish pos => exact hclaimed _ (by rfl) .addSize (by simp)
  | addSize => exact hends _ (by rfl)

/-- **The consumer goes on.** -/
theorem CallsInOrder.consumed (h : CallsInOrder s) {queue : MPSCQueue τ capacity}
    (hpointer : queue.isPointer = s.queue.isPointer) {point : PopPoint τ}
    (popped : List (Option τ)) :
    CallsInOrder ({ s with queue := queue, popping := point, popped := popped } :
      QueueThreads τ capacity) :=
  ⟨h.claimed, h.pushing, hpointer ▸ h.notNull⟩

theorem CallsInOrder.step (h : CallsInOrder s) (event : QueueEvent τ) :
    CallsInOrder (s.step event).1 := by
  cases event with
  | push producer item => exact h.callPush producer item
  | pushStep producer fails =>
    rw [QueueThreads.step]
    split
    case h_1 => exact h
    case h_2 hat => exact h.stepPush hat fails
  | pop =>
    rw [QueueThreads.step, callPop]
    split
    · exact h.consumed (by rfl) _
    · exact h
  | popStep =>
    rw [QueueThreads.step]
    match s.popping with
    | .idle => exact h
    | .loadSequence pos =>
      rw [stepPop]
      split
      · exact h.consumed (by rfl) _
      · exact h.consumed (by rfl) _
    | .takeValue _ => exact h.consumed (by rfl) _
    | .freeSlot _ _ => exact h.consumed (by rfl) _
    | .advanceTail _ _ => exact h.consumed (by rfl) _
    | .subSize _ => exact h.consumed (by rfl) _

/-! ## What holds in every run -/

/-- The consumer has taken the item of a position. -/
def Taken (s : QueueThreads τ capacity) (pos : ℕ) : Prop :=
  pos < s.queue.tail ∨ ∃ item, s.popping = .freeSlot pos item ∨ s.popping = .advanceTail pos item

/-- What is asked of a queue after any steps. -/
structure Fifo (s : QueueThreads τ capacity) : Prop where
  /-- The items that were returned are the first ones that were claimed. -/
  popped : s.popped <+: s.items
  /-- A producer claims its items in the order of its calls. -/
  claimed : ∀ producer,
    (s.claimed.filter (·.1 = producer)).Sublist (s.called.filter (·.1 = producer))
  /-- A slot is written when its earlier items have been taken. -/
  written : ∀ producer item pos, s.pushing producer = some (item, .writeValue pos) →
    ∀ earlier < pos, earlier % capacity = pos % capacity → s.Taken earlier
  /-- `push` throws that the queue is full when each slot has an item claimed and not returned. -/
  full : ∀ event producer, .pushThrows producer .queueIsFull ∈ (s.step event).2 →
    s.claimed.length = s.freed + capacity ∧ s.popped.length ≤ s.freed
  /-- `pop` finds no item when the one at the tail has not been published. -/
  poppedNull : ∀ event, .poppedNull ∈ (s.step event).2 → ¬ s.Published s.queue.tail
  /-- `pop` returns a null item when that was pushed. -/
  nullItem : ∀ event, .popped none ∈ (s.step event).2 →
    s.queue.isPointer = false ∧ s.items[s.popped.length]? = some none

/-- How a call may end here. -/
inductive Ends (s : QueueThreads τ capacity) : QueueResult τ → Prop
  | pushed (producer : ℕ) : Ends s (.pushed producer)
  | nullItem (producer : ℕ) : Ends s (.pushThrows producer .nullItem)
  | queueIsFull {producer pos : ℕ} {item : Option τ}
      (hat : s.pushing producer = some (item, .loadSequence pos))
      (hdiff : diff (s.queue.slot pos).sequence pos < 0) :
      Ends s (.pushThrows producer .queueIsFull)
  | poppedNull {pos : ℕ} (hat : s.popping = .loadSequence pos)
      (hdiff : diff (s.queue.slot pos).sequence (toSize (pos + 1)) ≠ 0) : Ends s .poppedNull
  | popped {item : Option τ} (hat : s.popping = .subSize item) : Ends s (.popped item)

theorem ends_callPush {result : QueueResult τ} (h : result ∈ (s.callPush producer item).2) :
    Ends s result := by
  rw [callPush] at h
  split at h
  · cases h
  · split at h
    · obtain rfl := List.mem_singleton.mp h
      exact .nullItem producer
    · cases h

theorem ends_stepPush (hat : s.pushing producer = some (item, point)) {fails : Bool}
    {result : QueueResult τ} (h : result ∈ (s.stepPush producer item fails point).2) :
    Ends s result := by
  match point, hat with
  | .loadHead, _ => cases h
  | .loadSequence pos, hat =>
    simp only [stepPush] at h
    split at h
    · cases h
    · split at h
      case isTrue hneg =>
        obtain rfl := List.mem_singleton.mp h
        exact .queueIsFull hat hneg
      case isFalse => cases h
  | .exchangeHead pos, _ =>
    rw [stepPush] at h
    split at h
    · cases h
    · cases h
  | .writeValue pos, _ => cases h
  | .publish pos, _ => cases h
  | .addSize, _ =>
    obtain rfl := List.mem_singleton.mp h
    exact .pushed producer

theorem ends_stepPop {point : PopPoint τ} (hat : s.popping = point) {result : QueueResult τ}
    (h : result ∈ (s.stepPop point).2) : Ends s result := by
  match point, hat with
  | .idle, _ => cases h
  | .loadSequence pos, hat =>
    rw [stepPop] at h
    split at h
    case isTrue => cases h
    case isFalse hne =>
      obtain rfl := List.mem_singleton.mp h
      exact .poppedNull hat hne
  | .takeValue pos, _ => cases h
  | .freeSlot pos item, _ => cases h
  | .advanceTail pos item, _ => cases h
  | .subSize item, hat =>
    obtain rfl := List.mem_singleton.mp h
    exact .popped hat

theorem ends_step {event : QueueEvent τ} {result : QueueResult τ}
    (h : result ∈ (s.step event).2) : Ends s result := by
  cases event with
  | push producer item => exact ends_callPush h
  | pushStep producer fails =>
    rw [step] at h
    split at h
    case h_1 => cases h
    case h_2 hat => exact ends_stepPush hat h
  | pop => cases h
  | popStep => exact ends_stepPop rfl h

theorem Inv.fifo (h : Inv s) (hcalls : CallsInOrder s) (hfew : s.Few) : Fifo s where
  popped := h.popped
  claimed := hcalls.claimed
  written := by
    intro producer item pos hat earlier hlt hmod
    obtain ⟨hge, hentry⟩ := h.pushing producer item _ hat
    have hpos := lt_of_claimed hentry
    have hle := h.le_freed
    -- the slot was last used a turn ago, and has been freed since
    have hturn : earlier + capacity ≤ pos := by
      by_contra hclose
      exact Ring.slot_ne hlt (by omega) hmod
    have hfreed : earlier < s.freed := by omega
    rw [freed] at hfreed
    split at hfreed
    case h_1 pos' item' hpopping =>
      have hok := h.popping
      rw [hpopping] at hok
      rcases Nat.lt_or_eq_of_le (Nat.le_of_lt_succ hfreed) with hbefore | rfl
      · exact .inl (hok.2.1 ▸ hbefore)
      · exact .inr ⟨item', .inr hpopping⟩
    case h_2 => exact .inl hfreed
  full := by
    intro event producer hthrows
    cases ends_step hthrows with
    | queueIsFull hat hdiff =>
      have hcases := h.diff_cases (h.bounded hfew) (h.pushing _ _ _ hat)
      exact ⟨hcases.2 hdiff, h.freed_le_popped.1⟩
  poppedNull := by
    intro event hnull
    cases ends_step hnull with
    | poppedNull hat hdiff =>
      have hok := h.popping
      rw [hat] at hok
      obtain ⟨-, hpos⟩ := hok
      have hfreed : s.freed = s.queue.tail := by rw [freed, hat]
      intro hpub
      rw [hpos, ← hfreed] at hdiff
      exact hdiff ((h.diff_tail (h.bounded hfew)).mpr (hfreed ▸ hpub))
  nullItem := by
    intro event hnull
    cases ends_step hnull with
    | popped hat =>
      have hok := h.popping
      rw [hat] at hok
      obtain ⟨-, hitem⟩ := hok
      refine ⟨?_, hitem⟩
      -- the null item was pushed, which a queue of pointers does not let
      rw [items, List.getElem?_map, Option.map_eq_some_iff] at hitem
      obtain ⟨entry, hentry, hnone⟩ := hitem
      have hmem : entry ∈ s.called := by
        have hsub := (hcalls.claimed entry.1).subset
        have hclaimed : entry ∈ s.claimed.filter (·.1 = entry.1) := by
          simpa using List.mem_of_getElem? hentry
        exact (List.mem_filter.mp (hsub hclaimed)).1
      by_contra hpointer
      exact hcalls.notNull (by simpa using hpointer) entry hmem hnone

/-! ### Runs -/

/-- The lists only grow. -/
theorem grows_stepPush (s : QueueThreads τ capacity) (producer : ℕ) (item : Option τ) (fails : Bool)
    (point : PushPoint) : s.claimed <+: (s.stepPush producer item fails point).1.claimed ∧
      (s.stepPush producer item fails point).1.popped = s.popped := by
  match point with
  | .loadHead => exact ⟨List.prefix_rfl, rfl⟩
  | .loadSequence pos =>
    simp only [stepPush]
    split
    · exact ⟨List.prefix_rfl, rfl⟩
    · split
      · exact ⟨List.prefix_rfl, rfl⟩
      · exact ⟨List.prefix_rfl, rfl⟩
  | .exchangeHead pos =>
    rw [stepPush]
    split
    · exact ⟨List.prefix_append .., rfl⟩
    · exact ⟨List.prefix_rfl, rfl⟩
  | .writeValue pos => exact ⟨List.prefix_rfl, rfl⟩
  | .publish pos => exact ⟨List.prefix_rfl, rfl⟩
  | .addSize => exact ⟨List.prefix_rfl, rfl⟩

theorem grows_stepPop (s : QueueThreads τ capacity) (point : PopPoint τ) :
    (s.stepPop point).1.claimed = s.claimed ∧ s.popped <+: (s.stepPop point).1.popped := by
  match point with
  | .idle => exact ⟨rfl, List.prefix_rfl⟩
  | .loadSequence pos =>
    rw [stepPop]
    split
    · exact ⟨rfl, List.prefix_rfl⟩
    · exact ⟨rfl, List.prefix_rfl⟩
  | .takeValue pos => exact ⟨rfl, List.prefix_rfl⟩
  | .freeSlot pos item => exact ⟨rfl, List.prefix_rfl⟩
  | .advanceTail pos item => exact ⟨rfl, List.prefix_rfl⟩
  | .subSize item => exact ⟨rfl, List.prefix_append ..⟩

theorem operations_le_step (s : QueueThreads τ capacity) (event : QueueEvent τ) :
    s.operations ≤ (s.step event).1.operations := by
  have hgrows : s.claimed <+: (s.step event).1.claimed ∧ s.popped <+: (s.step event).1.popped := by
    cases event with
    | push producer item =>
      rw [step, callPush]
      split
      · exact ⟨List.prefix_rfl, List.prefix_rfl⟩
      · split
        · exact ⟨List.prefix_rfl, List.prefix_rfl⟩
        · exact ⟨List.prefix_rfl, List.prefix_rfl⟩
    | pushStep producer fails =>
      rw [step]
      split
      case h_1 => exact ⟨List.prefix_rfl, List.prefix_rfl⟩
      case h_2 item point hat =>
        obtain ⟨hclaimed, hpopped⟩ := s.grows_stepPush producer item fails point
        exact ⟨hclaimed, hpopped ▸ List.prefix_rfl⟩
    | pop =>
      rw [step, callPop]
      split
      · exact ⟨List.prefix_rfl, List.prefix_rfl⟩
      · exact ⟨List.prefix_rfl, List.prefix_rfl⟩
    | popStep =>
      obtain ⟨hclaimed, hpopped⟩ := s.grows_stepPop s.popping
      exact ⟨hclaimed ▸ List.prefix_rfl, hpopped⟩
  exact Nat.add_le_add hgrows.1.length_le hgrows.2.length_le

/-- The invariants, as long as there are few operations. -/
theorem inv_of_run (hcapacity : 1 < capacity) (hobject : capacity * 64 < 2 ^ 63) (name : String)
    (isPointer : Bool) (events : List (QueueEvent τ))
    (hfew : (Run.exec (Run.next step) (start name isPointer : QueueThreads τ capacity)
      events).operations < 2 ^ 63) :
    Inv (Run.exec (Run.next step) (start name isPointer : QueueThreads τ capacity) events) ∧
      CallsInOrder
        (Run.exec (Run.next step) (start name isPointer : QueueThreads τ capacity) events) := by
  have hstep : ∀ (s : QueueThreads τ capacity) (event : QueueEvent τ),
      (s.operations < 2 ^ 63 → Inv s ∧ CallsInOrder s) →
      (Run.next step s event).operations < 2 ^ 63 →
        Inv (Run.next step s event) ∧ CallsInOrder (Run.next step s event) := by
    intro s event h hlt
    have hfew : s.operations < 2 ^ 63 := (s.operations_le_step event).trans_lt hlt
    obtain ⟨hinv, hcalls⟩ := h hfew
    exact ⟨hinv.step ⟨hcapacity, hobject, hfew⟩ event, hcalls.step event⟩
  have hstart : CallsInOrder (start name isPointer : QueueThreads τ capacity) :=
    ⟨fun _ => List.nil_sublist _, nofun, fun _ _ hcall => absurd hcall List.not_mem_nil⟩
  have hinvs := Run.exec_of_forall hstep (fun _ => ⟨inv_start name isPointer, hstart⟩) events
  exact hinvs hfew

/-- **The queue of any producers and one consumer**, after any of their atomic steps. -/
theorem fifo_of_run (hcapacity : 1 < capacity) (hobject : capacity * 64 < 2 ^ 63) (name : String)
    (isPointer : Bool) (events : List (QueueEvent τ))
    (hfew : (Run.exec (Run.next step) (start name isPointer : QueueThreads τ capacity)
      events).operations < 2 ^ 63) :
    Fifo (Run.exec (Run.next step) (start name isPointer : QueueThreads τ capacity) events) := by
  obtain ⟨hinv, hcalls⟩ := inv_of_run hcapacity hobject name isPointer events hfew
  exact hinv.fifo hcalls ⟨hcapacity, hobject, hfew⟩

/-- Two producers claim a position each; the second publishes first, and `pop` finds nothing until
the first has published. -/
def overtakingRun : List (QueueEvent ℕ) :=
  [.push 0 (some 1), .push 1 (some 2), .pushStep 0 false, .pushStep 1 false, .pushStep 0 false,
    .pushStep 1 false, .pushStep 0 false, .pushStep 1 false, .pushStep 1 false, .pushStep 1 false,
    .pushStep 1 false, .pushStep 1 false, .pop, .popStep, .pushStep 0 false, .pushStep 0 false,
    .pop, .popStep, .popStep, .popStep, .popStep, .popStep]

theorem fifo_overtakingRun :
    Fifo (Run.exec (Run.next step) (start "n" true : QueueThreads ℕ 2) overtakingRun) :=
  fifo_of_run (by decide) (by decide) "n" true overtakingRun (by decide)

/-- A null item is pushed to a queue of values. -/
def nullRun : List (QueueEvent ℕ) :=
  .push 0 none :: List.replicate 6 (.pushStep 0 false)

/-- **`pop` returns null although the item at the tail has been published.** -/
theorem nullRun_popsNull :
    ¬ ∀ (events : List (QueueEvent ℕ)) (s : QueueThreads ℕ 2),
      s = Run.exec (Run.next step) (start "n" false) events → s.popping = .idle →
      .popped none ∈ Run.trace step s (.pop :: List.replicate 5 .popStep) →
      ¬ s.Published s.queue.tail := by
  intro h
  refine h nullRun _ rfl (by decide) (by decide) (by_contra fun hnot => ?_)
  obtain ⟨hinv, -⟩ :=
    inv_of_run (by decide : 1 < 2) (by decide) "n" false nullRun (by decide)
  have hsequence := hinv.unpublished _ (by decide) (by decide) hnot
  exact absurd hsequence (by decide)

end QueueThreads

end TradingEngine
