import TradingEngine.Cache.PoolThreads
import Mathlib.Data.List.Nodup
import Mathlib.Data.List.Perm.Subperm

/-!
# Cache/PoolExclusivity — an object has one holder

Every object is at most once with an acquisition or in a slot that was not read since it was
written.  This is kept as long as an acquisition reads such a slot, which the pools do not see to:
the test of the size, the move of the head and the read are three steps, and so are the move of the
tail, the write and the count.
-/

namespace TradingEngine

open Handles Run

namespace PoolThreads

variable {kind : PoolKind} {capacity : ℕ}

/-- **The steps that keep the objects apart.**  An acquisition reads a slot that was written since
it was read, with an object that no `release` has still to refresh; and `acquire` throws only when
no object is counted twice. -/
def Careful (kind : PoolKind) (pool : PoolThreads) : PoolThreadEvent → Prop
  | .acquire => pool.size = 0 → pool.counted.Nodup
  | .step k =>
    match pool.acquisitions[k]? with
    | some (.readPointer headIndex) => pool.unread headIndex = true ∧
      pool.availableItems headIndex ∉ pool.acquisitions.filterMap (·.returns kind)
    | _ => True

instance (pool : PoolThreads) : ∀ event, Decidable (Careful kind pool event)
  | .acquire => inferInstanceAs (Decidable (_ → _))
  | .step k =>
    match h : pool.acquisitions[k]? with
    | some (.readPointer headIndex) =>
      decidable_of_iff (pool.unread headIndex = true ∧
        pool.availableItems headIndex ∉ pool.acquisitions.filterMap (·.returns kind))
        (by rw [Careful, h])
    | some .moveHead | some (.decreaseSize _) | some (.init _) | some (.held _)
    | some (.refreshFirst _) | some (.moveTail _) | some (.writePointer _ _)
    | some (.increaseSize _) | some (.refreshLast _) | some .done | none =>
      .isTrue (by rw [Careful, h]; trivial)

/-- What is asked of an effect: `acquire` throws when every object is taken, and what is initialised
or refreshed is with no other acquisition. -/
def Sound (capacity : ℕ) (pool : PoolThreads) : PoolThreadEffect → Prop
  | .threw => ∀ item, item < capacity → item ∈ pool.counted
  | .touched k item => ∀ k' point, k' ≠ k → pool.acquisitions[k']? = some point →
    point.holds ≠ some item

/-- What is asked of a state: no two acquisitions have the same object, and when no call is in
progress the size is that of the ring without the acquisitions. -/
structure Exclusive (capacity : ℕ) (pool : PoolThreads) : Prop where
  exclusive : ∀ (k k' : ℕ) (point point' : AcquisitionPoint) (item : ℕ), k ≠ k' →
    pool.acquisitions[k]? = some point →
    pool.acquisitions[k']? = some point' → point.holds = some item → point'.holds ≠ some item
  size : (∀ point ∈ pool.acquisitions, point.rests = true) →
    pool.size + pool.acquisitions.countP (·.holds.isSome) = capacity

/-! ## The invariant -/

/-- The acquisitions that have an object. -/
def holding (pool : PoolThreads) (item : ℕ) : ℕ := holders (pool.acquisitions.map (·.holds)) item

/-- The slots that were not read since they were written, by their objects. -/
def unreadItems (capacity : ℕ) (pool : PoolThreads) : List (Option ℕ) :=
  (List.range capacity).map fun i =>
    if pool.unread i = true then some (pool.availableItems i) else none

/-- The calls of `release` that are still to refresh an object. -/
def returning (kind : PoolKind) (pool : PoolThreads) (item : ℕ) : ℕ :=
  holders (pool.acquisitions.map (·.returns kind)) item

/-- The objects and slots of an acquisition are those of the pool. -/
def InRange (capacity : ℕ) : AcquisitionPoint → Prop
  | .readPointer headIndex => headIndex < capacity
  | .writePointer item tailIndex => item < capacity ∧ tailIndex < capacity
  | .decreaseSize item | .init item | .held item | .refreshFirst item | .moveTail item
  | .increaseSize item | .refreshLast item => item < capacity
  | .moveHead | .done => True

/-- **The invariant.** -/
structure Inv (kind : PoolKind) (capacity : ℕ) (pool : PoolThreads) : Prop where
  single : ∀ item, pool.holding item + holders (pool.unreadItems capacity) item ≤ 1
  returned : ∀ item, pool.returning kind item ≠ 0 → pool.holding item = 0
  items : ∀ i, i < capacity → pool.availableItems i < capacity
  points : ∀ point ∈ pool.acquisitions, InRange capacity point
  head : pool.head < capacity
  tail : pool.tail < capacity
  size : pool.size < 2 ^ 64
  count : (pool.size + pool.counted.length) % 2 ^ 64 = capacity % 2 ^ 64

section Inv

variable {pool pool' : PoolThreads} {k item : ℕ} {point point' : AcquisitionPoint}

variable (pool) in
theorem holding_goOn (hk : pool.acquisitions[k]? = some point) (point' : AcquisitionPoint)
    (item : ℕ) : (pool.goOn k point').holding item + weight point.holds item =
      pool.holding item + weight point'.holds item := by
  have hat : (pool.acquisitions.map (·.holds))[k]? = some point.holds := by
    rw [List.getElem?_map, hk]
    rfl
  rw [holding, goOn, List.map_set]
  exact holders_set hat _ item

variable (kind pool) in
theorem returning_goOn (hk : pool.acquisitions[k]? = some point) (point' : AcquisitionPoint)
    (item : ℕ) : (pool.goOn k point').returning kind item + weight (point.returns kind) item =
      pool.returning kind item + weight (point'.returns kind) item := by
  have hat : (pool.acquisitions.map (·.returns kind))[k]? = some (point.returns kind) := by
    rw [List.getElem?_map, hk]
    rfl
  rw [returning, goOn, List.map_set]
  exact holders_set hat _ item

/-- One for an acquisition that is counted. -/
def tally (point : AcquisitionPoint) : ℕ := if point.counts.isSome = true then 1 else 0

theorem counted_goOn (hk : pool.acquisitions[k]? = some point) (point' : AcquisitionPoint) :
    (pool.goOn k point').counted.length + tally point = pool.counted.length + tally point' := by
  obtain ⟨hlt, hat⟩ := List.getElem?_eq_some_iff.mp hk
  have hpos : tally point ≤ pool.counted.length := by
    rw [tally, counted, List.length_filterMap_eq_countP]
    split
    case isTrue hcounts =>
      have hmem : point ∈ pool.acquisitions := List.mem_of_getElem? hk
      exact List.countP_pos_iff.mpr ⟨point, hmem, hcounts⟩
    case isFalse => exact Nat.zero_le _
  rw [counted, goOn, List.length_filterMap_eq_countP, List.countP_set hlt, hat, ← tally, ← tally]
  rw [counted, List.length_filterMap_eq_countP] at hpos ⊢
  omega

/-- What is unread at a slot. -/
def unreadAt (pool : PoolThreads) (i : ℕ) : Option ℕ :=
  if pool.unread i = true then some (pool.availableItems i) else none

variable (pool pool') in
/-- **A slot is read or written.** -/
theorem unreadItems_set {i : ℕ} (hi : i < capacity)
    (hsame : ∀ j, j ≠ i → pool'.unreadAt j = pool.unreadAt j) (item : ℕ) :
    holders (pool'.unreadItems capacity) item + weight (pool.unreadAt i) item =
      holders (pool.unreadItems capacity) item + weight (pool'.unreadAt i) item := by
  have hset : pool'.unreadItems capacity =
      (pool.unreadItems capacity).set i (pool'.unreadAt i) := by
    refine List.ext_getElem (by simp [unreadItems]) fun j hj _ => ?_
    simp only [unreadItems, List.getElem_set, List.getElem_map, List.getElem_range]
    rcases eq_or_ne i j with rfl | hne
    · rw [if_pos rfl, unreadAt]
    · rw [if_neg hne]
      exact hsame j hne.symm
  have hat : (pool.unreadItems capacity)[i]? = some (pool.unreadAt i) := by
    simp [unreadItems, unreadAt, hi]
  rw [hset]
  exact holders_set hat _ item

/-- **What a step of an acquisition keeps.** -/
theorem Inv.goOn (h : Inv kind capacity pool) (hk : pool.acquisitions[k]? = some point)
    (hsame : pool'.acquisitions = pool.acquisitions)
    (hsingle : ∀ item, weight point'.holds item + holders (pool'.unreadItems capacity) item ≤
      weight point.holds item + holders (pool.unreadItems capacity) item)
    (hreturned : ∀ item, (pool'.goOn k point').returning kind item ≠ 0 →
      (pool'.goOn k point').holding item = 0)
    (hitems : ∀ i, i < capacity → pool'.availableItems i < capacity)
    (hpoint : InRange capacity point') (hhead : pool'.head < capacity)
    (htail : pool'.tail < capacity) (hsize : pool'.size < 2 ^ 64)
    (hcount : (pool'.size + tally point') % 2 ^ 64 = (pool.size + tally point) % 2 ^ 64) :
    Inv kind capacity (pool'.goOn k point') := by
  have hk' : pool'.acquisitions[k]? = some point := hsame ▸ hk
  refine ⟨fun item => ?_, hreturned, hitems, fun other hother => ?_, hhead, htail, hsize, ?_⟩
  · have hholding := holding_goOn pool' hk' point' item
    have hbefore : pool'.holding item = pool.holding item := by rw [holding, hsame, holding]
    have hone := h.single item
    have hle : weight point.holds item ≤ pool.holding item := by
      have hat : (pool.acquisitions.map (·.holds))[k]? = some point.holds := by
        rw [List.getElem?_map, hk]
        rfl
      exact weight_le_holders hat item
    have hunread : (pool'.goOn k point').unreadItems capacity = pool'.unreadItems capacity := rfl
    rw [hunread]
    have hless := hsingle item
    omega
  · rcases List.mem_or_eq_of_mem_set hother with hold | rfl
    · exact h.points other (hsame ▸ hold)
    · exact hpoint
  · have hlength := counted_goOn hk' point'
    have hbefore : pool'.counted.length = pool.counted.length := by rw [counted, hsame, counted]
    have htally := h.count
    have hpool : (pool'.goOn k point').size = pool'.size := rfl
    rw [hpool]
    omega

/-! ## Each step -/

/-- A step that gives no object away and takes none. -/
theorem Inv.goOn_same (h : Inv kind capacity pool) (hk : pool.acquisitions[k]? = some point)
    (hsame : pool'.acquisitions = pool.acquisitions)
    (hitems : pool'.availableItems = pool.availableItems)
    (hunread : pool'.unread = pool.unread) (hholds : point'.holds = point.holds)
    (hreturns : point'.returns kind = point.returns kind ∨ point'.returns kind = none)
    (hpoint : InRange capacity point') (hhead : pool'.head < capacity)
    (htail : pool'.tail < capacity) (hsize : pool'.size < 2 ^ 64)
    (hcount : (pool'.size + tally point') % 2 ^ 64 = (pool.size + tally point) % 2 ^ 64) :
    Inv kind capacity (pool'.goOn k point') := by
  have hk' : pool'.acquisitions[k]? = some point := hsame ▸ hk
  have hslots : pool'.unreadItems capacity = pool.unreadItems capacity := by
    rw [unreadItems, hitems, hunread, unreadItems]
  refine h.goOn hk hsame (fun item => ?_) (fun item hne => ?_) (hitems ▸ h.items) hpoint hhead htail
    hsize hcount
  · exact Nat.le_of_eq (by rw [hholds, hslots])
  · have hholding := holding_goOn pool' hk' point' item
    have hreturning := returning_goOn kind pool' hk' point' item
    have hbefore : pool'.holding item = pool.holding item := by rw [holding, hsame, holding]
    have hbefore' : pool'.returning kind item = pool.returning kind item := by
      rw [returning, hsame, returning]
    rw [hholds] at hholding
    have hreturned := h.returned item
    have hle : weight (point'.returns kind) item ≤ weight (point.returns kind) item := by
      rcases hreturns with heq | hnone
      · exact Nat.le_of_eq (by rw [heq])
      · rw [hnone, weight_none]
        exact Nat.zero_le _
    omega

theorem Inv.inRange (h : Inv kind capacity pool) (hk : pool.acquisitions[k]? = some point) :
    InRange capacity point := h.points point (List.mem_of_getElem? hk)

/-- **The pointer is read.** -/
theorem Inv.readPointer {headIndex : ℕ} (h : Inv kind capacity pool)
    (hk : pool.acquisitions[k]? = some (.readPointer headIndex))
    (hunread : pool.unread headIndex = true)
    (hreturned : pool.returning kind (pool.availableItems headIndex) = 0) :
    Inv kind capacity
      ({ pool with unread := Function.update pool.unread headIndex false }.goOn k
        (.decreaseSize (pool.availableItems headIndex))) := by
  have hlt : headIndex < capacity := h.inRange hk
  have hbefore : pool.unreadAt headIndex = some (pool.availableItems headIndex) := if_pos hunread
  have hafter : unreadAt { pool with unread := Function.update pool.unread headIndex false }
      headIndex = none := by simp [unreadAt]
  have hset : ∀ item, holders (unreadItems capacity
      { pool with unread := Function.update pool.unread headIndex false }) item +
        weight (some (pool.availableItems headIndex)) item =
          holders (pool.unreadItems capacity) item := by
    intro item
    have hslots := unreadItems_set pool
      { pool with unread := Function.update pool.unread headIndex false } hlt
      (fun j hne => by simp only [unreadAt, Function.update_of_ne hne]) item
    rwa [hbefore, hafter, weight_none, Nat.add_zero] at hslots
  refine h.goOn hk rfl (fun item => ?_) (fun item hne => ?_) h.items (h.items headIndex hlt) h.head
    h.tail h.size rfl
  · have hslots := hset item
    rw [AcquisitionPoint.holds, AcquisitionPoint.holds, weight_none]
    omega
  · have hholding := holding_goOn { pool with
      unread := Function.update pool.unread headIndex false } hk
      (.decreaseSize (pool.availableItems headIndex)) item
    have hreturning := returning_goOn kind { pool with
      unread := Function.update pool.unread headIndex false } hk
      (.decreaseSize (pool.availableItems headIndex)) item
    have hnone : ∀ p : AcquisitionPoint, p = .readPointer headIndex ∨
        p = .decreaseSize (pool.availableItems headIndex) → p.returns kind = none := by
      rintro p (rfl | rfl) <;> cases kind <;> rfl
    rw [hnone _ (.inl rfl), hnone _ (.inr rfl)] at hreturning
    have hpool : pool.returning kind item ≠ 0 := fun hzero => hne (hreturning.trans hzero)
    have hother : pool.availableItems headIndex ≠ item := fun heq => hpool (heq ▸ hreturned)
    rw [AcquisitionPoint.holds, AcquisitionPoint.holds, weight_none, weight_of_ne hother]
      at hholding
    exact hholding.trans (h.returned item hpool)

/-- **The pointer is written.** -/
theorem Inv.writePointer {tailIndex : ℕ} (h : Inv kind capacity pool)
    (hk : pool.acquisitions[k]? = some (.writePointer item tailIndex)) :
    Inv kind capacity
      ({ pool with
          availableItems := Function.update pool.availableItems tailIndex item
          unread := Function.update pool.unread tailIndex true }.goOn k (.increaseSize item)) := by
  obtain ⟨hitem, hlt⟩ : item < capacity ∧ tailIndex < capacity := h.inRange hk
  obtain ⟨written, hwritten⟩ : ∃ written : PoolThreads, written = { pool with
      availableItems := Function.update pool.availableItems tailIndex item
      unread := Function.update pool.unread tailIndex true } := ⟨_, rfl⟩
  have hsame : written.acquisitions = pool.acquisitions := by rw [hwritten]
  have hk' : written.acquisitions[k]? = some (.writePointer item tailIndex) := hsame ▸ hk
  have hafter : written.unreadAt tailIndex = some item := by simp [hwritten, unreadAt]
  rw [← hwritten]
  have hslots := unreadItems_set pool written hlt fun j hne => by
    rw [hwritten]
    simp only [unreadAt, Function.update_of_ne hne]
  have hholding := holding_goOn written hk' (.increaseSize item)
  have hbefore : ∀ i, written.holding i = pool.holding i := by
    intro i
    rw [holding, hsame, holding]
  refine h.goOn hk hsame (fun i => ?_) (fun i hne => ?_) (fun i hi => ?_) hitem (hwritten ▸ h.head)
    (hwritten ▸ h.tail) (hwritten ▸ h.size) (by rw [hwritten]; rfl)
  · have hi := hslots i
    rw [hafter] at hi
    rw [AcquisitionPoint.holds, AcquisitionPoint.holds, weight_none]
    omega
  · have hi := hholding i
    rw [hbefore, AcquisitionPoint.holds, AcquisitionPoint.holds, weight_none, Nat.add_zero] at hi
    have hone := h.single i
    rcases eq_or_ne item i with rfl | hother
    · -- its only holder gives it back
      rw [weight_self] at hi
      omega
    · have hreturning := returning_goOn kind written hk' (.increaseSize item) i
      have hnone : ((.writePointer item tailIndex : AcquisitionPoint).returns kind) = none := by
        cases kind <;> rfl
      have hzero : weight ((.increaseSize item : AcquisitionPoint).returns kind) i = 0 := by
        cases kind
        · rfl
        · exact weight_of_ne hother
      rw [hnone, weight_none, hzero, Nat.add_zero, Nat.add_zero] at hreturning
      have hpool : pool.returning kind i ≠ 0 := by
        have hreturn : written.returning kind i = pool.returning kind i := by
          rw [returning, hsame, returning]
        rw [← hreturn, ← hreturning]
        exact hne
      have hzero := h.returned i hpool
      omega
  · rw [hwritten]
    dsimp only
    rcases eq_or_ne i tailIndex with rfl | hne
    · rw [Function.update_self]
      exact hitem
    · rw [Function.update_of_ne hne]
      exact h.items i hi

theorem returning_eq_zero (hnot : item ∉ pool.acquisitions.filterMap (·.returns kind)) :
    pool.returning kind item = 0 := by
  refine holders_eq_zero_iff.mpr fun hmem => hnot ?_
  obtain ⟨point, hpoint, hreturns⟩ := List.mem_map.mp hmem
  exact List.mem_filterMap.mpr ⟨point, hpoint, hreturns⟩

/-- **The step of an acquisition.** -/
theorem Inv.stepAt (h : Inv kind capacity pool) (hk : pool.acquisitions[k]? = some point)
    (hcareful : Careful kind pool (.step k)) :
    Inv kind capacity (pool.stepAt kind capacity k point).1 := by
  have hcapacity : 0 < capacity := Nat.zero_lt_of_lt h.head
  have hrange := h.inRange hk
  have hsize := h.size
  cases point with
  | moveHead =>
    exact h.goOn_same hk rfl rfl rfl rfl (.inr (by cases kind <;> rfl)) h.head
      (Nat.mod_lt _ hcapacity) h.tail h.size rfl
  | readPointer headIndex =>
    rw [Careful, hk] at hcareful
    exact h.readPointer hk hcareful.1 (returning_eq_zero hcareful.2)
  | decreaseSize item =>
    have hcount : ((pool.size + (2 ^ 64 - 1)) % 2 ^ 64 + 1) % 2 ^ 64 =
        (pool.size + 0) % 2 ^ 64 := by
      omega
    exact h.goOn_same hk rfl rfl rfl rfl (.inr (by cases kind <;> rfl)) hrange h.head h.tail
      (Nat.mod_lt _ (by decide)) hcount
  | init item =>
    exact h.goOn_same hk rfl rfl rfl rfl (.inr (by cases kind <;> rfl)) hrange h.head h.tail
      h.size rfl
  | held item =>
    cases kind <;>
      exact h.goOn_same hk rfl rfl rfl rfl (.inr rfl) hrange h.head h.tail h.size rfl
  | refreshFirst item =>
    exact h.goOn_same hk rfl rfl rfl rfl (.inr (by cases kind <;> rfl)) hrange h.head h.tail
      h.size rfl
  | moveTail item =>
    exact h.goOn_same hk rfl rfl rfl rfl (.inr (by cases kind <;> rfl)) ⟨hrange, h.tail⟩ h.head
      (Nat.mod_lt _ hcapacity) h.size rfl
  | writePointer item tailIndex => exact h.writePointer hk
  | increaseSize item =>
    have hcount : ((pool.size + 1) % 2 ^ 64 + 0) % 2 ^ 64 = (pool.size + 1) % 2 ^ 64 := by omega
    cases kind with
    | shared =>
      exact h.goOn_same hk rfl rfl rfl rfl (.inr rfl) trivial h.head h.tail
        (Nat.mod_lt _ (by decide)) hcount
    | cache =>
      exact h.goOn_same hk rfl rfl rfl rfl (.inl rfl) hrange h.head h.tail
        (Nat.mod_lt _ (by decide)) hcount
  | refreshLast item =>
    exact h.goOn_same hk rfl rfl rfl rfl (.inr (by cases kind <;> rfl)) trivial h.head h.tail
      h.size rfl
  | done => exact h

/-- **The step lemma.** -/
theorem Inv.step (h : Inv kind capacity pool) (event : PoolThreadEvent)
    (hcareful : Careful kind pool event) :
    Inv kind capacity (next (PoolThreads.step kind capacity) pool event) := by
  cases event with
  | acquire =>
    rw [next, PoolThreads.step]
    split
    case isTrue => exact h
    case isFalse =>
      have hnone : (AcquisitionPoint.moveHead).returns kind = none := by cases kind <;> rfl
      have hholding : ∀ item, holding { pool with
          acquisitions := pool.acquisitions ++ [.moveHead] } item = pool.holding item := by
        intro item
        rw [holding, List.map_append]
        exact (holders_concat _ none item).trans (Nat.add_zero _)
      have hreturning : ∀ item, returning kind { pool with
          acquisitions := pool.acquisitions ++ [.moveHead] } item = pool.returning kind item := by
        intro item
        rw [returning, List.map_append]
        refine (holders_concat _ ((AcquisitionPoint.moveHead).returns kind) item).trans ?_
        rw [hnone]
        rfl
      refine ⟨fun item => ?_, fun item => ?_, h.items, fun point hpoint => ?_, h.head, h.tail,
        h.size, ?_⟩
      · rw [hholding]
        exact h.single item
      · rw [hholding, hreturning]
        exact h.returned item
      · rcases List.mem_append.mp hpoint with hold | hnew
        · exact h.points point hold
        · rw [List.mem_singleton.mp hnew]
          trivial
      · have hcounted : counted { pool with acquisitions := pool.acquisitions ++ [.moveHead] } =
            pool.counted := by
          rw [counted, List.filterMap_append]
          exact List.append_nil _
        rw [hcounted]
        exact h.count
  | step k =>
    rw [next, PoolThreads.step]
    split
    case h_1 => exact h
    case h_2 point hk => exact h.stepAt hk hcareful

theorem inv_start (hcapacity : 0 < capacity) (hsize : capacity < 2 ^ 64) :
    Inv kind capacity (start capacity) where
  single := by
    intro item
    have hitems : (start capacity).unreadItems capacity = (List.range capacity).map some := rfl
    have hholding : (start capacity).holding item = 0 := rfl
    rw [hitems, hholding, Nat.zero_add, holders]
    exact List.nodup_iff_count_le_one.mp
      (List.nodup_range.map fun _ _ => Option.some.inj) (some item)
  returned := fun item hne => absurd rfl hne
  items := fun i hi => hi
  points := fun point hpoint => absurd hpoint List.not_mem_nil
  head := hcapacity
  tail := hcapacity
  size := hsize
  count := rfl

/-! ## What the invariant gives -/

/-- **Two acquisitions have two objects.** -/
theorem Inv.exclusive (h : Inv kind capacity pool) {k' : ℕ} (hne : k ≠ k')
    (hk : pool.acquisitions[k]? = some point) (hk' : pool.acquisitions[k']? = some point')
    (hitem : point.holds = some item) : point'.holds ≠ some item := by
  intro hitem'
  have hat : ∀ {i : ℕ} {p : AcquisitionPoint}, pool.acquisitions[i]? = some p →
      (pool.acquisitions.map (·.holds))[i]? = some p.holds := by
    intro i p hp
    rw [List.getElem?_map, hp]
    rfl
  have hle := weight_add_le_holders hne (hat hk) (hat hk') item
  have hone := h.single item
  rw [hitem, hitem', weight_self] at hle
  rw [holding] at hone
  omega

theorem counts_lt (hpoint : InRange capacity point) (hitem : point.counts = some item) :
    item < capacity := by
  cases point <;> simp_all [InRange, AcquisitionPoint.counts]

/-- **The objects that are counted once are those of the ring.** -/
theorem Inv.subperm (h : Inv kind capacity pool) (hnodup : pool.counted.Nodup) :
    List.Subperm pool.counted (List.range capacity) := by
  refine List.subperm_of_subset hnodup fun item hitem => ?_
  obtain ⟨point, hpoint, hcounts⟩ := List.mem_filterMap.mp hitem
  exact List.mem_range.mpr (counts_lt (h.points point hpoint) hcounts)

theorem Inv.counted_le (h : Inv kind capacity pool) (hnodup : pool.counted.Nodup) :
    pool.counted.length ≤ capacity := by
  have hle := (h.subperm hnodup).length_le
  rwa [List.length_range] at hle

/-- **A pool that throws has no object left.** -/
theorem Inv.mem_counted (h : Inv kind capacity pool) (hcapacity : capacity < 2 ^ 64)
    (hzero : pool.size = 0) (hnodup : pool.counted.Nodup) (hitem : item < capacity) :
    item ∈ pool.counted := by
  have hle := h.counted_le hnodup
  have hcount := h.count
  have hlength : (List.range capacity).length ≤ pool.counted.length := by
    rw [List.length_range]
    omega
  have hperm := (h.subperm hnodup).perm_of_length_le hlength
  exact hperm.mem_iff.mpr (List.mem_range.mpr hitem)

/-- **The size of a pool at rest.** -/
theorem Inv.size_of_rests (h : Inv kind capacity pool) (hcapacity : capacity < 2 ^ 64)
    (hrests : ∀ point ∈ pool.acquisitions, point.rests = true) :
    pool.size + pool.acquisitions.countP (·.holds.isSome) = capacity := by
  have hcounted : pool.counted = pool.acquisitions.filterMap (·.holds) := by
    refine List.filterMap_congr fun point hpoint => ?_
    have hrest := hrests point hpoint
    cases point <;> first | rfl | cases hrest
  have hnodup : pool.counted.Nodup := by
    rw [hcounted, List.nodup_iff_count_le_one]
    intro item
    have hone := h.single item
    have hcount : (pool.acquisitions.filterMap (·.holds)).count item = pool.holding item := by
      rw [holding, holders, List.count_filterMap, List.count, List.countP_map]
      rfl
    omega
  have hle := h.counted_le hnodup
  have hcount := h.count
  have hsize := h.size
  rw [← List.length_filterMap_eq_countP, ← hcounted]
  omega

/-- What an acquisition touches it has, or gave back without another one having it since. -/
theorem Inv.touched (h : Inv kind capacity pool) (hk : pool.acquisitions[k]? = some point)
    (hitem : point.holds = some item ∨ point.returns kind = some item) :
    pool.Sound capacity (.touched k item) := by
  intro k' point' hne hk'
  rcases hitem with hholds | hreturns
  · exact h.exclusive hne.symm hk hk' hholds
  · intro hholds
    have hat : (pool.acquisitions.map (·.returns kind))[k]? = some (some item) := by
      rw [List.getElem?_map, hk, Option.map_some, hreturns]
    have hat' : (pool.acquisitions.map (·.holds))[k']? = some (some item) := by
      rw [List.getElem?_map, hk', Option.map_some, hholds]
    have hreturning := weight_le_holders hat item
    have hholding := weight_le_holders hat' item
    rw [weight_self] at hreturning hholding
    have hzero := h.returned item (Nat.ne_of_gt hreturning)
    rw [holding] at hzero
    omega

theorem Inv.sound (h : Inv kind capacity pool) (hcapacity : capacity < 2 ^ 64)
    (event : PoolThreadEvent) (hcareful : Careful kind pool event) :
    ∀ effect ∈ (pool.step kind capacity event).2, pool.Sound capacity effect := by
  cases event with
  | acquire =>
    rw [PoolThreads.step]
    split
    case isTrue hzero =>
      intro effect heffect
      obtain rfl := List.mem_singleton.mp heffect
      intro item hitem
      exact h.mem_counted hcapacity hzero (hcareful hzero) hitem
    case isFalse => exact fun _ heffect => absurd heffect List.not_mem_nil
  | step k =>
    rw [PoolThreads.step]
    split
    case h_1 => exact fun _ heffect => absurd heffect List.not_mem_nil
    case h_2 point hk =>
      intro effect heffect
      cases point with
      | init item | refreshFirst item =>
        obtain rfl := List.mem_singleton.mp heffect
        exact h.touched hk (.inl rfl)
      | refreshLast item =>
        obtain rfl := List.mem_singleton.mp heffect
        exact h.touched hk (.inr (by cases kind <;> rfl))
      | held item | increaseSize item => cases kind <;> cases heffect
      | _ => cases heffect

/-! ## Whole runs -/

/-- A pool of size 0 gives out nothing. -/
theorem exec_zero (events : List PoolThreadEvent) :
    exec (next (PoolThreads.step kind 0)) (start 0) events = start 0 := by
  induction events with
  | nil => rfl
  | cons event events ih =>
    rw [exec_cons]
    cases event <;> exact ih

theorem sound_zero (events : List PoolThreadEvent) :
    Along (next (PoolThreads.step kind 0))
      (fun pool event => ∀ effect ∈ (pool.step kind 0 event).2, pool.Sound 0 effect) (start 0)
      events := by
  induction events with
  | nil => exact trivial
  | cons event events ih =>
    cases event with
    | acquire =>
      refine ⟨fun effect heffect => ?_, ih⟩
      obtain rfl := List.mem_singleton.mp heffect
      exact fun item hitem => absurd hitem (Nat.not_lt_zero item)
    | step k => exact ⟨fun _ heffect => absurd heffect List.not_mem_nil, ih⟩

/-- **An object has one holder.**  In every interleaving whose steps keep the objects apart, no two
acquisitions have the same object, none is refreshed that is with another acquisition, `acquire`
throws only when none is left, and at rest the size says how many are. -/
theorem exclusive_of_run (kind : PoolKind) {capacity : ℕ} (hcapacity : capacity < 2 ^ 64)
    {events : List PoolThreadEvent}
    (h : Along (next (PoolThreads.step kind capacity)) (Careful kind) (start capacity) events) :
    Along (next (PoolThreads.step kind capacity))
        (fun pool event => ∀ effect ∈ (pool.step kind capacity event).2,
          pool.Sound capacity effect) (start capacity) events ∧
      Exclusive capacity
        (exec (next (PoolThreads.step kind capacity)) (start capacity) events) := by
  rcases Nat.eq_zero_or_pos capacity with rfl | hpos
  · refine ⟨sound_zero events, ?_⟩
    rw [exec_zero]
    refine ⟨fun k k' point point' item _ hk => ?_, fun _ => rfl⟩
    cases hk
  · have hstart : Inv kind capacity (start capacity) := inv_start hpos hcapacity
    have hkeep : ∀ pool event, Inv kind capacity pool → Careful kind pool event →
        Inv kind capacity (next (PoolThreads.step kind capacity) pool event) :=
      fun _ event hs hcareful => hs.step event hcareful
    have hinv := exec_of_invariant hkeep hstart h
    exact ⟨along_of_invariant hkeep (fun _ event hs hcareful => hs.sound hcapacity event hcareful)
        hstart h,
      fun _ _ _ _ _ hne hk hk' hitem => hinv.exclusive hne hk hk' hitem,
      hinv.size_of_rests hcapacity⟩

/-- Two threads acquire and release at the same time, from a pool of two. -/
def twoThreadsRun : List PoolThreadEvent :=
  [.acquire, .acquire, .step 0, .step 1, .step 1, .step 0, .step 0, .step 1, .acquire, .step 1,
    .step 0, .step 0, .step 0, .step 0, .step 0, .step 0, .acquire, .step 2, .step 2, .step 2]

theorem exclusive_twoThreadsRun :
    Exclusive 2 (exec (next (PoolThreads.step .cache 2)) (start 2) twoThreadsRun) :=
  (exclusive_of_run .cache (by decide) (by decide)).2

/-- Two threads find one object in the pool, and both take it. -/
def racingRun : List PoolThreadEvent :=
  [.acquire, .acquire, .step 0, .step 0, .step 0, .step 0, .step 1, .step 1, .step 1, .step 1]

/-- **They have the same object**, in either pool. -/
theorem racingRun_not_exclusive :
    (¬ Exclusive 1 (exec (next (PoolThreads.step .shared 1)) (start 1) racingRun)) ∧
      ¬ Exclusive 1 (exec (next (PoolThreads.step .cache 1)) (start 1) racingRun) :=
  ⟨fun h => h.exclusive 0 1 (.held 0) (.held 0) 0 (by decide) (by decide) (by decide) rfl rfl,
    fun h => h.exclusive 0 1 (.held 0) (.held 0) 0 (by decide) (by decide) (by decide) rfl rfl⟩

end Inv

end PoolThreads

end TradingEngine
