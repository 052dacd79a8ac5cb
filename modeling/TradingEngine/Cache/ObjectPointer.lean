import TradingEngine.Machinery.Handles
import TradingEngine.Machinery.Ring
import TradingEngine.Machinery.Run

/-!
# Cache/ObjectPointer — the counted pointers of the shared pool

`SharedCachePool` hands its objects out under counted pointers.  Each operation on a pool or on a
pointer is one step here; the pool taken apart into its atomic steps is another matter.  The
pointers of a program stand in a list, a destroyed one as `none`, so the operands of an operation
are positions, and any two of them may be the same.
-/

namespace TradingEngine

/-- `SharedCachePool::PoolBuffer`, with the counters of its objects. -/
structure SharedCachePool (size : ℕ) where
  availableItems : ℕ → Fin size
  referenceCounter : Fin size → ℕ
  head : ℕ
  tail : ℕ
  poolSize : ℕ

/-- `SharedCachePool::ObjectPointer`: three pointers into one wrapper. -/
structure ObjectPointer (size : ℕ) where
  object : Option (Fin size)
  wrapper : Option (Fin size)
  referenceCounter : Option (Fin size)
  deriving DecidableEq, Repr

/-- What an operation does beside changing pointers. -/
inductive PoolEffect (size : ℕ)
  | acquired (object : Fin size)
  | noAvailableItems
  | released (object : Fin size)
  | releaseOfNull
  deriving DecidableEq, Repr

namespace SharedCachePool

variable {size : ℕ}

/-- `PoolBuffer::PoolBuffer`. -/
def construct [NeZero size] : SharedCachePool size where
  availableItems := fun i => Fin.ofNat size i
  referenceCounter := fun _ => 0
  head := 0
  tail := 0
  poolSize := size

/-- `SharedCachePool::acquire`, with the constructor of the pointer that is returned. -/
def acquire (pool : SharedCachePool size) : Option (Fin size) × SharedCachePool size :=
  if pool.poolSize = 0 then (none, pool)
  else
    (some (pool.availableItems pool.head),
      { pool with
        head := Ring.next size pool.head
        referenceCounter :=
          Function.update pool.referenceCounter (pool.availableItems pool.head) 1
        poolSize := pool.poolSize - 1 })

/-- `SharedCachePool::release`. -/
def release (pool : SharedCachePool size) :
    Option (Fin size) → List (PoolEffect size) × SharedCachePool size
  | none => ([.releaseOfNull], pool)
  | some item =>
    ([.released item],
      { pool with
        availableItems := Function.update pool.availableItems pool.tail item
        tail := Ring.next size pool.tail
        poolSize := pool.poolSize + 1 })

/-- `reference_counter->fetch_add(1)`. -/
def fetchAdd (pool : SharedCachePool size) (counter : Option (Fin size)) : SharedCachePool size :=
  match counter with
  | none => pool
  | some object =>
    { pool with
      referenceCounter :=
        Function.update pool.referenceCounter object (pool.referenceCounter object + 1) }

/-- `reference_counter->fetch_sub(1)`, and the release of the wrapper behind the last one. -/
def fetchSub (pool : SharedCachePool size) (pointer : ObjectPointer size) :
    List (PoolEffect size) × SharedCachePool size :=
  match pointer.referenceCounter with
  | none => ([], pool)
  | some object =>
    let counted :=
      { pool with
        referenceCounter :=
          Function.update pool.referenceCounter object (pool.referenceCounter object - 1) }
    if pool.referenceCounter object = 1 then counted.release pointer.wrapper else ([], counted)

end SharedCachePool

open SharedCachePool

namespace ObjectPointer

variable {size : ℕ}

/-- The constructor from a wrapper. -/
def ofWrapper (wrapper : Fin size) : ObjectPointer size :=
  ⟨some wrapper, some wrapper, some wrapper⟩

/-- A pointer that was moved from. -/
def null : ObjectPointer size := ⟨none, none, none⟩

end ObjectPointer

/-- A pool, and the pointers of the program. -/
structure PointerStore (size : ℕ) where
  pool : SharedCachePool size
  pointers : List (Option (ObjectPointer size))

/-- An operation; pointers are given by their places. -/
inductive PointerOperation
  | acquire
  | copyConstruct (other : ℕ)
  | moveConstruct (other : ℕ)
  | copyAssign (this other : ℕ)
  | moveAssign (this other : ℕ)
  | destroy (this : ℕ)
  deriving DecidableEq, Repr

namespace PointerStore

variable {size : ℕ}

/-- A new pool, and no pointers. -/
def start [NeZero size] : PointerStore size := ⟨.construct, []⟩

/-- The pointer at a place, if it lives. -/
def pointer (store : PointerStore size) (i : ℕ) : Option (ObjectPointer size) :=
  (store.pointers[i]?).join

/-- **A step**: the program after an operation, and its effects.  An operand that does not live is
no operand. -/
def step (store : PointerStore size) :
    PointerOperation → PointerStore size × List (PoolEffect size)
  | .acquire =>
    match store.pool.acquire with
    | (none, pool) => ({ store with pool := pool }, [.noAvailableItems])
    | (some object, pool) =>
      (⟨pool, store.pointers ++ [some (.ofWrapper object)]⟩, [.acquired object])
  | .copyConstruct other =>
    match store.pointer other with
    | none => (store, [])
    | some q => (⟨store.pool.fetchAdd q.referenceCounter, store.pointers ++ [some q]⟩, [])
  | .moveConstruct other =>
    match store.pointer other with
    | none => (store, [])
    | some q => (⟨store.pool, store.pointers.set other (some .null) ++ [some q]⟩, [])
  | .copyAssign this other =>
    match store.pointer this, store.pointer other with
    | some p, some q =>
      if this = other then (store, [])
      else
        let dropped := store.pool.fetchSub p
        (⟨dropped.2.fetchAdd q.referenceCounter, store.pointers.set this (some q)⟩, dropped.1)
    | _, _ => (store, [])
  | .moveAssign this other =>
    match store.pointer this, store.pointer other with
    | some p, some q =>
      if this = other then (store, [])
      else
        let dropped := store.pool.fetchSub p
        (⟨dropped.2, (store.pointers.set this (some q)).set other (some .null)⟩, dropped.1)
    | _, _ => (store, [])
  | .destroy this =>
    match store.pointer this with
    | none => (store, [])
    | some p =>
      -- the destructor asks for the wrapper too
      if p.referenceCounter ≠ none ∧ p.wrapper ≠ none then
        let dropped := store.pool.fetchSub p
        (⟨dropped.2, store.pointers.set this none⟩, dropped.1)
      else (⟨store.pool, store.pointers.set this none⟩, [])

/-- What the pointers refer to. -/
def targets (store : PointerStore size) : List (Option (Fin size)) :=
  store.pointers.map fun pointer => pointer.bind (·.wrapper)

/-- The live pointers whose wrapper is an object. -/
def live (store : PointerStore size) (object : Fin size) : ℕ :=
  Handles.holders store.targets object

end PointerStore

/-! ## A pool with counts -/

namespace SharedCachePool

open Handles

variable {size : ℕ} {pool : SharedCachePool size} {count : Fin size → ℕ}

/-- The counters of a pool are `count`, and its ring holds the objects that are counted 0. -/
structure Counted (pool : SharedCachePool size) (count : Fin size → ℕ) : Prop where
  counter : ∀ object, pool.referenceCounter object = count object
  free : Ring.FreeList pool.availableItems pool.head pool.tail pool.poolSize
    fun object => count object = 0

theorem Counted.congr (h : Counted pool count) {count' : Fin size → ℕ}
    (hcount : ∀ object, count object = count' object) : Counted pool count' where
  counter := fun object => (h.counter object).trans (hcount object)
  free := h.free.congr fun object => by rw [hcount]

theorem counted_construct [NeZero size] :
    Counted (construct : SharedCachePool size) fun _ => 0 where
  counter := fun _ => rfl
  free := Ring.FreeList.full.congr fun _ => iff_of_true trivial rfl

/-- **`acquire`** hands out an object that is counted 0, and counts it 1. -/
theorem Counted.acquire (h : Counted pool count) :
    pool.acquire = (none, pool) ∨
      ∃ object pool', pool.acquire = (some object, pool') ∧ count object = 0 ∧
        Counted pool' fun other => count other + weight (some object) other := by
  rw [SharedCachePool.acquire]
  split
  case isTrue => exact .inl rfl
  case isFalse hne =>
    have hzero := h.free.front_free hne
    refine .inr ⟨_, _, rfl, hzero, fun other => ?_, (h.free.pop hne).congr fun other => ?_⟩
    · dsimp only
      rcases eq_or_ne other (pool.availableItems pool.head) with rfl | hother
      · rw [Function.update_self, weight_self, hzero]
      · rw [Function.update_of_ne hother, weight_of_ne hother.symm, h.counter, Nat.add_zero]
    · rcases eq_or_ne other (pool.availableItems pool.head) with rfl | hother
      · simp
      · simp [weight_of_ne hother.symm, hother]

/-- **A copy** of a pointer is counted. -/
theorem Counted.fetchAdd (h : Counted pool count) {counter : Option (Fin size)}
    (hpos : ∀ object, weight counter object ≤ count object) :
    Counted (pool.fetchAdd counter) fun other => count other + weight counter other := by
  cases counter with
  | none => exact h
  | some object =>
    have hobject : 1 ≤ count object := weight_self object ▸ hpos object
    refine ⟨fun other => ?_, h.free.congr fun other => ?_⟩
    · rcases eq_or_ne other object with rfl | hne
      · simp [SharedCachePool.fetchAdd, h.counter]
      · simp [SharedCachePool.fetchAdd, Function.update_of_ne hne, h.counter,
          weight_of_ne hne.symm]
    · rcases eq_or_ne other object with rfl | hne
      · omega
      · rw [weight_of_ne hne.symm, Nat.add_zero]

/-- What the drop of a pointer releases. -/
def releases (count : Fin size → ℕ) : Option (Fin size) → List (PoolEffect size)
  | none => []
  | some object => if count object = 1 then [.released object] else []

/-- **A pointer is dropped**: its object is released when it was the last one. -/
theorem Counted.fetchSub (h : Counted pool count) {pointer : ObjectPointer size}
    (hcoherent : pointer.referenceCounter = pointer.wrapper)
    (hpos : ∀ object, weight pointer.wrapper object ≤ count object) :
    (pool.fetchSub pointer).1 = releases count pointer.wrapper ∧
      Counted (pool.fetchSub pointer).2 fun other =>
        count other - weight pointer.wrapper other := by
  rw [SharedCachePool.fetchSub, hcoherent]
  cases hwrapper : pointer.wrapper with
  | none => exact ⟨rfl, h⟩
  | some object =>
    have hobject : 1 ≤ count object := by
      have hle := hpos object
      rwa [hwrapper, weight_self] at hle
    have hcounter : ∀ other,
        Function.update pool.referenceCounter object (pool.referenceCounter object - 1) other =
          count other - weight (some object) other := by
      intro other
      rcases eq_or_ne other object with rfl | hne
      · rw [Function.update_self, weight_self, h.counter]
      · rw [Function.update_of_ne hne, weight_of_ne hne.symm, h.counter, Nat.sub_zero]
    simp only [releases, h.counter object]
    split
    case isTrue hone =>
      refine ⟨rfl, fun other => ?_, (h.free.push (by omega)).congr fun other => ?_⟩
      · rw [← h.counter object]
        exact hcounter other
      · rcases eq_or_ne other object with rfl | hne
        · simp [hone]
        · simp [weight_of_ne hne.symm, hne]
    case isFalse hne =>
      refine ⟨rfl, fun other => ?_, h.free.congr fun other => ?_⟩
      · rw [← h.counter object]
        exact hcounter other
      · rcases eq_or_ne other object with rfl | hother
        · rw [weight_self]
          omega
        · rw [weight_of_ne hother.symm, Nat.sub_zero]

end SharedCachePool

/-! ## The pointers of a program -/

namespace PointerStore

open Handles

variable {size : ℕ} {store : PointerStore size} {i j : ℕ} {p q : ObjectPointer size}

/-- **The invariant**: the three parts of a pointer agree, and the counters of the pool count the
live pointers. -/
structure Inv (store : PointerStore size) : Prop where
  coherent : ∀ i p, store.pointer i = some p →
    p.referenceCounter = p.wrapper ∧ p.object = p.wrapper
  counted : Counted store.pool store.live

theorem getElem?_of_pointer (h : store.pointer i = some p) : store.pointers[i]? = some (some p) :=
  Option.join_eq_some_iff.mp h

theorem target_of_pointer (h : store.pointer i = some p) : store.targets[i]? = some p.wrapper := by
  rw [targets, List.getElem?_map, getElem?_of_pointer h]
  rfl

/-- The pointers with one more. -/
theorem pointer_concat {pool : SharedCachePool size} {pointers : List (Option (ObjectPointer size))}
    (h : pointer ⟨pool, pointers ++ [some q]⟩ i = some p) :
    pointer ⟨pool, pointers⟩ i = some p ∨ p = q := by
  rw [pointer, List.getElem?_append] at h
  split at h
  · exact .inl h
  · rw [List.getElem?_singleton] at h
    split at h
    · exact .inr (Option.some.inj h).symm
    · cases h

/-- The pointers with one changed. -/
theorem pointer_set {pool : SharedCachePool size} {pointers : List (Option (ObjectPointer size))}
    {new : Option (ObjectPointer size)}
    (h : pointer ⟨pool, pointers.set j new⟩ i = some p) :
    pointer ⟨pool, pointers⟩ i = some p ∨ new = some p := by
  rw [pointer, List.getElem?_set] at h
  split at h
  · split at h
    · exact .inr h
    · cases h
  · exact .inl h

theorem inv_start [NeZero size] : Inv (start : PointerStore size) where
  coherent := nofun
  counted := counted_construct

/-- One while an object is acquired. -/
def isAcquired (store : PointerStore size) (object : Fin size) : ℕ :=
  if store.live object = 0 then 0 else 1

/-- What an operation does to the program and to the objects: one is released when its last pointer
goes, and acquired when none points to it. -/
structure Accounted (store store' : PointerStore size) (effects : List (PoolEffect size)) :
    Prop where
  inv : Inv store'
  length_le : effects.length ≤ 1
  noNull : .releaseOfNull ∉ effects
  released : ∀ object,
    .released object ∈ effects ↔ 0 < store.live object ∧ store'.live object = 0
  balance : ∀ object,
    store'.isAcquired object + effects.count (.released object) =
      store.isAcquired object + effects.count (.acquired object)

/-- An operation that releases nothing and drops no last pointer. -/
theorem Accounted.of_le {store' : PointerStore size} (hinv : Inv store')
    (hlive : ∀ object, store.live object = 0 ↔ store'.live object = 0) :
    Accounted store store' [] where
  inv := hinv
  length_le := Nat.zero_le _
  noNull := List.not_mem_nil
  released := fun object => by
    have := hlive object
    simp only [List.not_mem_nil, false_iff]
    omega
  balance := fun object => by simp only [isAcquired, hlive object, List.count_nil]

/-- **A pointer is dropped**, and one may be made for another one that stays. -/
theorem Accounted.of_drop {store' : PointerStore size} (hinv : Inv store')
    {wrapper new : Option (Fin size)}
    (hle : ∀ object, weight wrapper object + weight new object ≤ store.live object)
    (hlive : ∀ object, store'.live object + weight wrapper object =
      store.live object + weight new object) :
    Accounted store store' (releases store.live wrapper) := by
  cases wrapper with
  | none =>
    refine .of_le hinv fun object => ?_
    have hle := hle object
    have hlive := hlive object
    rw [weight_none] at hle hlive
    omega
  | some dropped =>
    -- an object other than the dropped one keeps its pointers
    have hother : ∀ object, object ≠ dropped →
        (store'.live object = 0 ↔ store.live object = 0) := by
      intro object hne
      have hle := hle object
      have hlive := hlive object
      rw [weight_of_ne hne.symm] at hle hlive
      omega
    have hle := hle dropped
    have hlive := hlive dropped
    rw [weight_self] at hle hlive
    simp only [releases]
    split
    case isTrue hone =>
      refine ⟨hinv, le_rfl, by simp, fun object => ?_, fun object => ?_⟩
      · rw [List.mem_singleton, PoolEffect.released.injEq]
        rcases eq_or_ne object dropped with rfl | hne
        · exact iff_of_true rfl (by omega)
        · refine iff_of_false hne fun hgone => ?_
          have := hother object hne
          omega
      · rcases eq_or_ne object dropped with rfl | hne
        · have hzero : store'.live object = 0 := by omega
          simp [isAcquired, hone, hzero]
        · simp [isAcquired, hother object hne, hne.symm]
    case isFalse hne =>
      refine .of_le hinv fun object => ?_
      rcases eq_or_ne object dropped with rfl | hobject
      · omega
      · exact (hother object hobject).symm

/-- **A pointer is dropped**, and none is made. -/
theorem Accounted.of_gone {store' : PointerStore size} (hinv : Inv store')
    {wrapper : Option (Fin size)} (hle : ∀ object, weight wrapper object ≤ store.live object)
    (hlive : ∀ object, store'.live object + weight wrapper object = store.live object) :
    Accounted store store' (releases store.live wrapper) := by
  have hle' : ∀ object, weight wrapper object + weight none object ≤ store.live object := hle
  have hlive' : ∀ object, store'.live object + weight wrapper object =
      store.live object + weight none object := hlive
  exact .of_drop hinv hle' hlive'

/-! ### One operation -/

theorem Inv.acquire (h : Inv store) :
    Accounted store (store.step .acquire).1 (store.step .acquire).2 := by
  rcases h.counted.acquire with hnone | ⟨object, pool', hsome, hzero, hcounted⟩
  · simp only [step, hnone]
    exact
      { inv := h
        length_le := le_rfl
        noNull := by simp
        released := fun object =>
          iff_of_false (by simp) fun hgone => absurd hgone.2 (Nat.ne_of_gt hgone.1)
        balance := fun object => by simp [isAcquired, live, targets] }
  · simp only [step, hsome]
    have hlive : ∀ other,
        live ⟨pool', store.pointers ++ [some (.ofWrapper object)]⟩ other =
          store.live other + weight (some object) other := by
      intro other
      rw [live, targets, List.map_append]
      exact holders_concat store.targets _ other
    refine ⟨⟨fun i p hp => ?_, hcounted.congr fun other => (hlive other).symm⟩, le_rfl, by simp,
      fun other => iff_of_false (by simp) fun hgone => ?_, fun other => ?_⟩
    · rcases pointer_concat hp with hold | rfl
      · exact h.coherent i p hold
      · exact ⟨rfl, rfl⟩
    · have := hlive other
      omega
    · rcases eq_or_ne other object with rfl | hne
      · simp [isAcquired, hlive, hzero]
      · simp [isAcquired, hlive, weight_of_ne hne.symm, hne.symm]

/-- A pointer lives: its object is counted. -/
theorem weight_le_live (h : store.pointer i = some p) (object : Fin size) :
    weight p.wrapper object ≤ store.live object := weight_le_holders (target_of_pointer h) object

theorem Inv.copyConstruct (h : Inv store) (hq : store.pointer j = some q) :
    Accounted store ⟨store.pool.fetchAdd q.referenceCounter, store.pointers ++ [some q]⟩ [] := by
  obtain ⟨hcounter, -⟩ := h.coherent j q hq
  have hlive : ∀ object,
      live ⟨store.pool.fetchAdd q.referenceCounter, store.pointers ++ [some q]⟩ object =
        store.live object + weight q.wrapper object := by
    intro object
    rw [live, targets, List.map_append]
    exact holders_concat store.targets _ object
  refine .of_le ⟨fun i p hp => ?_, ?_⟩ fun object => ?_
  · rcases pointer_concat hp with hold | rfl
    · exact h.coherent i p hold
    · exact h.coherent j p hq
  · rw [hcounter]
    exact (h.counted.fetchAdd (weight_le_live hq)).congr fun object => (hlive object).symm
  · have := weight_le_live hq object
    have := hlive object
    omega

theorem Inv.moveConstruct (h : Inv store) (hq : store.pointer j = some q) :
    Accounted store ⟨store.pool, store.pointers.set j (some .null) ++ [some q]⟩ [] := by
  have hlive : ∀ object,
      live ⟨store.pool, store.pointers.set j (some .null) ++ [some q]⟩ object =
        store.live object := by
    intro object
    have hset := holders_set (target_of_pointer hq) none object
    rw [weight_none] at hset
    rw [live, targets, List.map_append, List.map_set]
    exact (holders_concat (store.targets.set j none) q.wrapper object).trans hset
  refine .of_le ⟨fun i p hp => ?_, ?_⟩ fun object => by rw [hlive]
  · rcases pointer_concat hp with hold | rfl
    · rcases pointer_set hold with hold | hnull
      · exact h.coherent i p hold
      · cases hnull
        exact ⟨rfl, rfl⟩
    · exact h.coherent j p hq
  · exact h.counted.congr fun object => (hlive object).symm

/-- **A pointer is dropped and another one takes its place.** -/
theorem Inv.copyAssign (h : Inv store) (hp : store.pointer i = some p)
    (hq : store.pointer j = some q) (hij : i ≠ j) :
    Accounted store
      ⟨(store.pool.fetchSub p).2.fetchAdd q.referenceCounter, store.pointers.set i (some q)⟩
      (store.pool.fetchSub p).1 := by
  obtain ⟨hpcounter, -⟩ := h.coherent i p hp
  obtain ⟨hqcounter, -⟩ := h.coherent j q hq
  obtain ⟨heffects, hcounted⟩ := h.counted.fetchSub hpcounter (weight_le_live hp)
  have hboth : ∀ object, weight p.wrapper object + weight q.wrapper object ≤ store.live object :=
    weight_add_le_holders hij (target_of_pointer hp) (target_of_pointer hq)
  have hlive : ∀ object,
      live ⟨(store.pool.fetchSub p).2.fetchAdd q.referenceCounter,
          store.pointers.set i (some q)⟩ object + weight p.wrapper object =
        store.live object + weight q.wrapper object := by
    intro object
    rw [live, targets, List.map_set]
    exact holders_set (target_of_pointer hp) q.wrapper object
  rw [heffects]
  refine .of_drop ⟨fun k r hr => ?_, ?_⟩ hboth hlive
  · rcases pointer_set hr with hold | hnew
    · exact h.coherent k r hold
    · cases hnew
      exact h.coherent j q hq
  · rw [hqcounter]
    refine (hcounted.fetchAdd fun object => ?_).congr fun object => ?_
    · have := hboth object
      omega
    · have hobject := hlive object
      have hle := hboth object
      rw [hqcounter] at hobject
      omega

/-- **A pointer is dropped, and one is moved into its place.** -/
theorem Inv.moveAssign (h : Inv store) (hp : store.pointer i = some p)
    (hq : store.pointer j = some q) (hij : i ≠ j) :
    Accounted store
      ⟨(store.pool.fetchSub p).2, (store.pointers.set i (some q)).set j (some .null)⟩
      (store.pool.fetchSub p).1 := by
  obtain ⟨hpcounter, -⟩ := h.coherent i p hp
  obtain ⟨heffects, hcounted⟩ := h.counted.fetchSub hpcounter (weight_le_live hp)
  have hlive : ∀ object,
      live ⟨(store.pool.fetchSub p).2, (store.pointers.set i (some q)).set j (some .null)⟩ object +
        weight p.wrapper object = store.live object := by
    intro object
    have hfirst := holders_set (target_of_pointer hp) q.wrapper object
    have hother : (store.targets.set i q.wrapper)[j]? = some q.wrapper := by
      rw [List.getElem?_set_ne hij, target_of_pointer hq]
    have hsecond := holders_set hother none object
    rw [weight_none] at hsecond
    rw [live, targets, List.map_set, List.map_set]
    change holders ((store.targets.set i q.wrapper).set j none) object + _ =
      holders store.targets object
    omega
  rw [heffects]
  refine .of_gone ⟨fun k r hr => ?_, ?_⟩ (weight_le_live hp) hlive
  · rcases pointer_set hr with hold | hnull
    · rcases pointer_set hold with hold | hnew
      · exact h.coherent k r hold
      · cases hnew
        exact h.coherent j q hq
    · cases hnull
      exact ⟨rfl, rfl⟩
  · refine hcounted.congr fun object => ?_
    have := hlive object
    omega

/-- **A pointer is destroyed.** -/
theorem Inv.destroy (h : Inv store) (hp : store.pointer i = some p) :
    Accounted store ⟨(store.pool.fetchSub p).2, store.pointers.set i none⟩
      (store.pool.fetchSub p).1 := by
  obtain ⟨hpcounter, -⟩ := h.coherent i p hp
  obtain ⟨heffects, hcounted⟩ := h.counted.fetchSub hpcounter (weight_le_live hp)
  have hlive : ∀ object,
      live ⟨(store.pool.fetchSub p).2, store.pointers.set i none⟩ object +
        weight p.wrapper object = store.live object := by
    intro object
    rw [live, targets, List.map_set]
    exact holders_set (target_of_pointer hp) none object
  rw [heffects]
  refine .of_gone ⟨fun k r hr => ?_, ?_⟩ (weight_le_live hp) hlive
  · rcases pointer_set hr with hold | hnone
    · exact h.coherent k r hold
    · cases hnone
  · refine hcounted.congr fun object => ?_
    have := hlive object
    omega

/-- **The step lemma.** -/
theorem Inv.step (h : Inv store) (operation : PointerOperation) :
    Accounted store (store.step operation).1 (store.step operation).2 := by
  have hnothing : Accounted store store [] := .of_le h fun _ => Iff.rfl
  cases operation with
  | acquire => exact h.acquire
  | copyConstruct other =>
    rw [PointerStore.step]
    split
    · exact hnothing
    · exact h.copyConstruct ‹_›
  | moveConstruct other =>
    rw [PointerStore.step]
    split
    · exact hnothing
    · exact h.moveConstruct ‹_›
  | copyAssign this other =>
    simp only [PointerStore.step]
    split
    case h_1 hp hq =>
      split
      case isTrue => exact hnothing
      case isFalse hne => exact h.copyAssign hp hq hne
    case h_2 => exact hnothing
  | moveAssign this other =>
    simp only [PointerStore.step]
    split
    case h_1 hp hq =>
      split
      case isTrue => exact hnothing
      case isFalse hne => exact h.moveAssign hp hq hne
    case h_2 => exact hnothing
  | destroy this =>
    simp only [PointerStore.step]
    split
    case h_1 => exact hnothing
    case h_2 p hp =>
      split
      case isTrue => exact h.destroy hp
      case isFalse hnull =>
        -- the null checks agree, so there is nothing to drop
        have hnone : p.referenceCounter = none := by
          obtain ⟨hcounter, -⟩ := h.coherent this p hp
          by_contra hsome
          exact hnull ⟨hsome, hcounter ▸ hsome⟩
        have hdestroy := h.destroy hp
        rwa [fetchSub, hnone] at hdestroy

/-! ## Runs -/

/-- **Counting**, in a program after any operations. -/
structure Counting (store : PointerStore size) : Prop where
  /-- The counter of an object is the number of its live pointers. -/
  counter : ∀ object, store.pool.referenceCounter object = store.live object
  /-- An operation releases an object, once, exactly when the last pointer to it goes away. -/
  released : ∀ operation object,
    (.released object ∈ (store.step operation).2 ↔
      0 < store.live object ∧ (store.step operation).1.live object = 0) ∧
    (store.step operation).2.count (.released object) ≤ 1
  /-- A pointer that was moved from is null. -/
  moved : ∀ i j p q, store.pointer i = some p → store.pointer j = some q → i ≠ j →
    (store.step (.moveConstruct j)).1.pointer j = some .null ∧
      (store.step (.moveAssign i j)).1.pointer j = some .null
  /-- A null pointer releases nothing. -/
  null : ∀ i, store.pointer i = some .null →
    (store.step (.destroy i)).2 = [] ∧
      ∀ j, (store.step (.copyAssign i j)).2 = [] ∧ (store.step (.moveAssign i j)).2 = []

theorem Inv.counting (h : Inv store) : Counting store where
  counter := h.counted.counter
  released := by
    intro operation object
    have hstep := h.step operation
    exact ⟨hstep.released object, List.count_le_length.trans hstep.length_le⟩
  moved := by
    intro i j p q hp hq hij
    have hlt : j < store.pointers.length := by
      by_contra hge
      have hget := getElem?_of_pointer hq
      rw [List.getElem?_eq_none (by omega)] at hget
      cases hget
    constructor
    · simp only [PointerStore.step, hq]
      rw [pointer, List.getElem?_append_left (by simpa using hlt), List.getElem?_set_self hlt]
      rfl
    · simp only [PointerStore.step, hp, hq, if_neg hij]
      rw [pointer, List.getElem?_set_self (by simpa using hlt)]
      rfl
  null := by
    intro i hi
    refine ⟨by simp [PointerStore.step, hi, ObjectPointer.null], fun j => ⟨?_, ?_⟩⟩
    · simp only [PointerStore.step, hi]
      split
      case h_1 hp _ =>
        cases hp
        split <;> rfl
      case h_2 => rfl
    · simp only [PointerStore.step, hi]
      split
      case h_1 hp _ =>
        cases hp
        split <;> rfl
      case h_2 => rfl

/-- What a run does to the objects, from any program with the invariant. -/
theorem Inv.run (h : Inv store) (operations : List PointerOperation) :
    Inv (Run.exec (Run.next PointerStore.step) store operations) ∧
      .releaseOfNull ∉ Run.trace PointerStore.step store operations ∧
      ∀ object,
        (Run.exec (Run.next PointerStore.step) store operations).isAcquired object +
            (Run.trace PointerStore.step store operations).count (.released object) =
          store.isAcquired object +
            (Run.trace PointerStore.step store operations).count (.acquired object) := by
  induction operations generalizing store with
  | nil => exact ⟨h, List.not_mem_nil, fun _ => rfl⟩
  | cons operation operations ih =>
    have hstep := h.step operation
    obtain ⟨hinv, hnull, hbalance⟩ := ih hstep.inv
    refine ⟨hinv, ?_, fun object => ?_⟩
    · rw [Run.trace, List.mem_append, not_or]
      exact ⟨hstep.noNull, hnull⟩
    · have hhead := hstep.balance object
      have htail := hbalance object
      have hnext : Run.next PointerStore.step store operation = (store.step operation).1 := rfl
      rw [Run.trace, List.count_append, List.count_append, Run.exec_cons, hnext]
      omega

/-- **The counted pointers of every program**: the counters are right, an object is released when
its last pointer goes, and once for each time it was acquired. -/
theorem counting_of_run [NeZero size] (operations : List PointerOperation) :
    Counting (Run.exec (Run.next step) (start : PointerStore size) operations) ∧
      .releaseOfNull ∉ Run.trace step (start : PointerStore size) operations ∧
      ∀ object,
        (Run.trace step (start : PointerStore size) operations).count (.acquired object) =
          (Run.trace step (start : PointerStore size) operations).count (.released object) +
            (Run.exec (Run.next step) (start : PointerStore size) operations).isAcquired
              object := by
  have hstart : Inv (start : PointerStore size) := inv_start
  obtain ⟨hinv, hnull, hbalance⟩ := hstart.run operations
  refine ⟨hinv.counting, hnull, fun object => ?_⟩
  have hobject := hbalance object
  have hzero : (start : PointerStore size).isAcquired object = 0 := rfl
  omega

/-- Both objects are acquired, one pointer is copied over the other, and one is moved out. -/
def assignRun : List PointerOperation :=
  [.acquire, .acquire, .copyAssign 0 1, .moveConstruct 1, .destroy 0, .destroy 2]

theorem counting_assignRun :
    Counting (Run.exec (Run.next step) (start : PointerStore 2) assignRun) ∧
      .releaseOfNull ∉ Run.trace step (start : PointerStore 2) assignRun ∧
      ∀ object,
        (Run.trace step (start : PointerStore 2) assignRun).count (.acquired object) =
          (Run.trace step (start : PointerStore 2) assignRun).count (.released object) +
            (Run.exec (Run.next step) (start : PointerStore 2) assignRun).isAcquired object :=
  counting_of_run assignRun

end PointerStore

end TradingEngine
