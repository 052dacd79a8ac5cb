import TradingEngine.Machinery.Ring
import TradingEngine.Machinery.Run

/-!
# Cache/SingleThreadCachePool — a pool of objects for one thread

The objects that are not used stand in a ring of pointers; `acquire` takes the one at the head,
`release` puts one behind the last.  A use counter for each object tells the acquisitions of one
object apart.  The calls of a run are kept in a ledger: which object was acquired, under which
`Id`, and whether it has been released.
-/

namespace TradingEngine

/-- `SingleThreadCachePool::Id`. -/
structure PoolId where
  index : ℕ
  useTime : ℕ
  deriving DecidableEq, Repr

/-- `SingleThreadCachePool::Object`. -/
structure PoolObject (τ : Type*) where
  value : τ
  index : ℕ
  useTime : ℕ
  isActive : Bool

/-- What a call throws: an error of the pool, or the exception of a method of an object. -/
inductive PoolError (size : ℕ)
  | runtimeError (message : String)
  | thrownBy (object : Fin size)
  deriving DecidableEq, Repr

/-- The methods of the pooled type: the value they leave, and whether they throw.  A type without a
method has one that does nothing. -/
structure PoolMethods (τ : Type*) where
  init : τ → τ × Bool
  refresh : τ → τ × Bool

/-- `SingleThreadCachePool`. -/
structure SingleThreadCachePool (τ : Type*) (size : ℕ) where
  name : String
  objects : Fin size → PoolObject τ
  freeObjects : ℕ → Fin size
  head : ℕ
  tail : ℕ
  freeCount : ℕ

namespace SingleThreadCachePool

variable {τ : Type*} {size : ℕ}

/-- `Object::get_id`. -/
def getId (object : PoolObject τ) : PoolId := ⟨object.index, object.useTime⟩

/-- The constructor. -/
def construct [Inhabited τ] [NeZero size] (name : String) : SingleThreadCachePool τ size where
  name := name
  objects := fun i => ⟨default, i, 0, false⟩
  freeObjects := fun i => Fin.ofNat size i
  head := 0
  tail := 0
  freeCount := size

/-- `++i`, and back to 0 at the end of the ring. -/
def advance (size i : ℕ) : ℕ := if i + 1 ≥ size then 0 else i + 1

/-- `SingleThreadCachePool::acquire`. -/
def acquire (methods : PoolMethods τ) (pool : SingleThreadCachePool τ size) :
    Except (PoolError size) (Fin size) × SingleThreadCachePool τ size :=
  if pool.freeCount = 0 then
    (.error (.runtimeError ("SingleThreadCachePool<" ++ pool.name ++
      "> - [acquire] No available items in cache pool")), pool)
  else
    let object := pool.freeObjects pool.head
    let init := methods.init (pool.objects object).value
    let acquired :=
      { pool.objects object with
        value := init.1
        isActive := true
        useTime := ((pool.objects object).useTime + 1) % 2 ^ 64 }
    (if init.2 then .error (.thrownBy object) else .ok object,
      { pool with
        head := advance size pool.head
        freeCount := pool.freeCount - 1
        objects := Function.update pool.objects object acquired })

/-- `SingleThreadCachePool::release`: an exception of `refresh` leaves `m_tail` and `m_free_count`
where they were. -/
def release (methods : PoolMethods τ) (pool : SingleThreadCachePool τ size) :
    Option (Fin size) → Except (PoolError size) Bool × SingleThreadCachePool τ size
  | none =>
    (.error (.runtimeError ("SingleThreadCachePool<" ++ pool.name ++
      "> - [release] Attempting to release a nullptr object")), pool)
  | some object =>
    if (pool.objects object).isActive = false then
      (.error (.runtimeError ("SingleThreadCachePool<" ++ pool.name ++
        "> - [release] Attempting to release an inactive object")), pool)
    else
      let refresh := methods.refresh (pool.objects object).value
      let released := { pool.objects object with value := refresh.1, isActive := false }
      let stored :=
        { pool with
          objects := Function.update pool.objects object released
          freeObjects := Function.update pool.freeObjects pool.tail object }
      if refresh.2 then (.error (.thrownBy object), stored)
      else
        (.ok true,
          { stored with tail := advance size pool.tail, freeCount := pool.freeCount + 1 })

/-- A value is written through a pointer to an object. -/
def write (pool : SingleThreadCachePool τ size) (object : Fin size) (value : τ) :
    SingleThreadCachePool τ size :=
  { pool with
    objects := Function.update pool.objects object { pool.objects object with value := value } }

/-- `SingleThreadCachePool::is_active`. -/
def isActive (pool : SingleThreadCachePool τ size) (id : PoolId) : Bool :=
  if h : id.index < size then
    (pool.objects ⟨id.index, h⟩).isActive && (pool.objects ⟨id.index, h⟩).useTime = id.useTime
  else false

/-- `SingleThreadCachePool::available_size`. -/
def availableSize (pool : SingleThreadCachePool τ size) : ℕ := pool.freeCount

/-- `SingleThreadCachePool::active_size`. -/
def activeSize (pool : SingleThreadCachePool τ size) : ℕ := size - pool.freeCount

/-- The `m_free_count` entries of the ring from `m_head` on. -/
def freeSegment (pool : SingleThreadCachePool τ size) : List (Fin size) :=
  Ring.segment pool.freeObjects size pool.head pool.freeCount

end SingleThreadCachePool

open SingleThreadCachePool

/-! ## Runs -/

/-- An acquisition: its object, its `Id`, and whether it has been released. -/
structure Acquisition (size : ℕ) where
  object : Fin size
  id : PoolId
  released : Bool
  deriving DecidableEq, Repr

/-- A pool, and the acquisitions made from it. -/
structure PoolLedger (τ : Type*) (size : ℕ) where
  pool : SingleThreadCachePool τ size
  acquisitions : List (Acquisition size)

/-- A call, or a value that is written into an object by whoever has a pointer to it. -/
inductive PoolCall (τ : Type*) (size : ℕ)
  | acquire
  | release (object : Option (Fin size))
  | write (object : Fin size) (value : τ)

namespace PoolLedger

variable {τ : Type*} {size : ℕ}

/-- An acquisition of an object, with the `Id` the object has now. -/
def record (ledger : PoolLedger τ size) (object : Fin size) : PoolLedger τ size :=
  { ledger with
    acquisitions :=
      ledger.acquisitions ++ [⟨object, getId (ledger.pool.objects object), false⟩] }

/-- The acquisitions of an object are released. -/
def close (ledger : PoolLedger τ size) (object : Fin size) : PoolLedger τ size :=
  { ledger with
    acquisitions := ledger.acquisitions.map fun a =>
      if a.object = object then { a with released := true } else a }

/-- **A step.** -/
def step (methods : PoolMethods τ) (ledger : PoolLedger τ size) :
    PoolCall τ size → PoolLedger τ size
  | .acquire =>
    let result := ledger.pool.acquire methods
    match result.1 with
    | .ok object => { ledger with pool := result.2 }.record object
    | .error (.thrownBy object) => { ledger with pool := result.2 }.record object
    | .error (.runtimeError _) => { ledger with pool := result.2 }
  | .release object =>
    let result := ledger.pool.release methods object
    match result.1, object with
    | .ok _, some object => { ledger with pool := result.2 }.close object
    | _, _ => { ledger with pool := result.2 }
  | .write object value => { ledger with pool := ledger.pool.write object value }

/-- A new pool. -/
def start [Inhabited τ] [NeZero size] (name : String) : PoolLedger τ size := ⟨.construct name, []⟩

/-- How often an object was acquired. -/
def timesAcquired (ledger : PoolLedger τ size) (object : Fin size) : ℕ :=
  ledger.acquisitions.countP fun a => a.object = object

end PoolLedger

/-! ## The ring holds the inactive objects -/

namespace SingleThreadCachePool

variable {τ : Type*} {size : ℕ} {methods : PoolMethods τ} {pool : SingleThreadCachePool τ size}
  {object : Fin size}

/-- **The ring**: the free entries are the inactive objects, each once. -/
structure RingInv (pool : SingleThreadCachePool τ size) : Prop where
  index : ∀ object, (pool.objects object).index = object
  free : Ring.FreeList pool.freeObjects pool.head pool.tail pool.freeCount
    fun object => (pool.objects object).isActive = false

theorem advance_eq_next {i : ℕ} (h : i < size) : advance size i = Ring.next size i :=
  (Ring.next_eq_ite h).symm

theorem ringInv_construct [Inhabited τ] [NeZero size] (name : String) :
    RingInv (construct name : SingleThreadCachePool τ size) where
  index := fun _ => rfl
  free := Ring.FreeList.full.congr fun _ => iff_of_true trivial rfl

theorem write_index (pool : SingleThreadCachePool τ size) (object other : Fin size) (value : τ) :
    ((pool.write object value).objects other).index = (pool.objects other).index := by
  rcases eq_or_ne other object with rfl | hne
  · simp only [write, Function.update_self]
  · simp only [write, Function.update_of_ne hne]

theorem write_isActive (pool : SingleThreadCachePool τ size) (object other : Fin size)
    (value : τ) :
    ((pool.write object value).objects other).isActive = (pool.objects other).isActive := by
  rcases eq_or_ne other object with rfl | hne
  · simp only [write, Function.update_self]
  · simp only [write, Function.update_of_ne hne]

theorem write_useTime (pool : SingleThreadCachePool τ size) (object other : Fin size) (value : τ) :
    ((pool.write object value).objects other).useTime = (pool.objects other).useTime := by
  rcases eq_or_ne other object with rfl | hne
  · simp only [write, Function.update_self]
  · simp only [write, Function.update_of_ne hne]

theorem RingInv.write (h : RingInv pool) (object : Fin size) (value : τ) :
    RingInv (pool.write object value) :=
  { index := fun other => (write_index pool object other value).trans (h.index other)
    free := h.free.congr fun other => by rw [write_isActive] }

/-! ### `acquire` -/

/-- The object at the head of the ring. -/
def front (pool : SingleThreadCachePool τ size) : Fin size := pool.freeObjects pool.head

/-- The pool without the object at its head. -/
def taken (methods : PoolMethods τ) (pool : SingleThreadCachePool τ size) :
    SingleThreadCachePool τ size :=
  { pool with
    head := advance size pool.head
    freeCount := pool.freeCount - 1
    objects := Function.update pool.objects pool.front
      { pool.objects pool.front with
        value := (methods.init (pool.objects pool.front).value).1
        isActive := true
        useTime := ((pool.objects pool.front).useTime + 1) % 2 ^ 64 } }

theorem taken_index (methods : PoolMethods τ) (pool : SingleThreadCachePool τ size)
    (object : Fin size) :
    ((pool.taken methods).objects object).index = (pool.objects object).index := by
  rcases eq_or_ne object pool.front with rfl | hne
  · simp only [taken, Function.update_self]
  · simp only [taken, Function.update_of_ne hne]

theorem taken_isActive (methods : PoolMethods τ) (pool : SingleThreadCachePool τ size)
    (object : Fin size) :
    ((pool.taken methods).objects object).isActive =
      (object = pool.front ∨ (pool.objects object).isActive = true : Bool) := by
  rcases eq_or_ne object pool.front with rfl | hne
  · simp only [taken, Function.update_self, true_or, decide_true]
  · simp only [taken, Function.update_of_ne hne, hne, false_or, Bool.decide_eq_true]

theorem taken_useTime (methods : PoolMethods τ) (pool : SingleThreadCachePool τ size)
    (object : Fin size) :
    ((pool.taken methods).objects object).useTime =
      if object = pool.front then ((pool.objects object).useTime + 1) % 2 ^ 64
      else (pool.objects object).useTime := by
  rcases eq_or_ne object pool.front with rfl | hne
  · simp only [taken, Function.update_self, if_true]
  · simp only [taken, Function.update_of_ne hne, if_neg hne]

/-- **What `acquire` does.** -/
theorem acquire_cases (methods : PoolMethods τ) (pool : SingleThreadCachePool τ size) :
    (pool.freeCount = 0 ∧
      ∃ message, pool.acquire methods = (.error (.runtimeError message), pool)) ∨
    (pool.freeCount ≠ 0 ∧
      (pool.acquire methods = (.ok pool.front, pool.taken methods) ∨
        pool.acquire methods = (.error (.thrownBy pool.front), pool.taken methods) ∧
          (methods.init (pool.objects pool.front).value).2 = true)) := by
  rw [acquire]
  split
  case isTrue hempty => exact .inl ⟨hempty, _, rfl⟩
  case isFalse hne =>
    refine .inr ⟨hne, ?_⟩
    cases hthrow : (methods.init (pool.objects pool.front).value).2 with
    | false =>
      left
      simp only [front] at hthrow
      simp only [hthrow]
      rfl
    | true =>
      right
      simp only [front] at hthrow
      simp only [hthrow]
      exact ⟨rfl, trivial⟩

/-- **The object that is handed out was inactive.** -/
theorem RingInv.front_inactive (h : RingInv pool) (hne : pool.freeCount ≠ 0) :
    (pool.objects pool.front).isActive = false := h.free.front_free hne

theorem RingInv.taken (h : RingInv pool) (hne : pool.freeCount ≠ 0) :
    RingInv (pool.taken methods) := by
  refine ⟨fun object => (taken_index methods pool object).trans (h.index object), ?_⟩
  have hpop := h.free.pop hne
  rw [← advance_eq_next h.free.head_lt] at hpop
  refine hpop.congr fun object => ?_
  rw [taken_isActive, decide_eq_false_iff_not, not_or, Bool.not_eq_true, and_comm]
  rfl

/-! ### `release` -/

/-- The pool with an object put back. -/
def putBack (methods : PoolMethods τ) (pool : SingleThreadCachePool τ size) (object : Fin size) :
    SingleThreadCachePool τ size :=
  { pool with
    objects := Function.update pool.objects object
      { pool.objects object with
        value := (methods.refresh (pool.objects object).value).1, isActive := false }
    freeObjects := Function.update pool.freeObjects pool.tail object
    tail := advance size pool.tail
    freeCount := pool.freeCount + 1 }

theorem putBack_index (methods : PoolMethods τ) (pool : SingleThreadCachePool τ size)
    (object other : Fin size) :
    ((pool.putBack methods object).objects other).index = (pool.objects other).index := by
  rcases eq_or_ne other object with rfl | hne
  · simp only [putBack, Function.update_self]
  · simp only [putBack, Function.update_of_ne hne]

theorem putBack_isActive (methods : PoolMethods τ) (pool : SingleThreadCachePool τ size)
    (object other : Fin size) :
    ((pool.putBack methods object).objects other).isActive =
      (other ≠ object ∧ (pool.objects other).isActive = true : Bool) := by
  rcases eq_or_ne other object with rfl | hne
  · simp only [putBack, Function.update_self, ne_eq, not_true_eq_false, false_and, decide_false]
  · simp only [putBack, Function.update_of_ne hne, ne_eq, hne, not_false_eq_true, true_and,
      Bool.decide_eq_true]

theorem putBack_useTime (methods : PoolMethods τ) (pool : SingleThreadCachePool τ size)
    (object other : Fin size) :
    ((pool.putBack methods object).objects other).useTime = (pool.objects other).useTime := by
  rcases eq_or_ne other object with rfl | hne
  · simp only [putBack, Function.update_self]
  · simp only [putBack, Function.update_of_ne hne]

/-- **What `release` does**, where `refresh` does not throw. -/
theorem release_cases (hrefresh : ∀ value, (methods.refresh value).2 = false)
    (pool : SingleThreadCachePool τ size) (object : Option (Fin size)) :
    (∃ message, pool.release methods object = (.error (.runtimeError message), pool)) ∨
    ∃ o, object = some o ∧ (pool.objects o).isActive = true ∧
      pool.release methods object = (.ok true, pool.putBack methods o) := by
  cases object with
  | none => exact .inl ⟨_, rfl⟩
  | some o =>
    rw [release]
    split
    case isTrue => exact .inl ⟨_, rfl⟩
    case isFalse hactive =>
      refine .inr ⟨o, rfl, Bool.eq_true_of_not_eq_false hactive, ?_⟩
      simp only [hrefresh]
      rfl

theorem RingInv.putBack (h : RingInv pool) (hactive : (pool.objects object).isActive = true) :
    RingInv (pool.putBack methods object) := by
  refine ⟨fun other => (putBack_index methods pool object other).trans (h.index other), ?_⟩
  have htail : pool.tail < size := by
    rw [h.free.tail_eq]
    exact Nat.mod_lt _ (Nat.zero_lt_of_lt h.free.head_lt)
  have hpush := h.free.push (x := object) (by simp [hactive])
  rw [← advance_eq_next htail] at hpush
  refine hpush.congr fun other => ?_
  rw [putBack_isActive, decide_eq_false_iff_not, not_and, ne_eq, Bool.not_eq_true, or_comm,
    imp_iff_not_or, not_not]

/-- **`acquire` throws an error of the pool exactly when all objects are active.** -/
theorem RingInv.acquire_throws_iff (h : RingInv pool) :
    (∃ message, (pool.acquire methods).1 = .error (.runtimeError message)) ↔
      ∀ object, (pool.objects object).isActive = true := by
  have hcount := h.free.count_eq_zero_iff
  simp only [Bool.not_eq_false] at hcount
  rw [← hcount]
  rcases acquire_cases methods pool with ⟨hempty, message, hacquire⟩ | ⟨hne, hacquire⟩
  · exact iff_of_true ⟨message, by rw [hacquire]⟩ hempty
  · refine iff_of_false ?_ hne
    rintro ⟨message, herror⟩
    rcases hacquire with hok | ⟨hthrown, -⟩
    · rw [hok] at herror
      cases herror
    · rw [hthrown] at herror
      cases herror

/-- An `Id` of an object of the pool. -/
theorem isActive_iff {id : PoolId} (hid : id.index = object) :
    pool.isActive id = true ↔
      (pool.objects object).isActive = true ∧ id.useTime = (pool.objects object).useTime := by
  have hlt : id.index < size := hid ▸ object.isLt
  have hobject : (⟨id.index, hlt⟩ : Fin size) = object := Fin.ext hid
  rw [isActive, dif_pos hlt, hobject, Bool.and_eq_true, decide_eq_true_iff,
    eq_comm (a := (pool.objects object).useTime)]

end SingleThreadCachePool

/-! ## The ledger -/

namespace PoolLedger

variable {τ : Type*} {size : ℕ} {methods : PoolMethods τ} {ledger : PoolLedger τ size}
  {object : Fin size}

/-- What the `Id`s in the ledger are: an acquisition is open exactly when its object is active and
has not been acquired since. -/
structure IdInv (ledger : PoolLedger τ size) : Prop where
  index : ∀ a ∈ ledger.acquisitions, a.id.index = a.object
  useTime_le : ∀ a ∈ ledger.acquisitions,
    a.id.useTime ≤ (ledger.pool.objects a.object).useTime
  open_iff : ∀ a ∈ ledger.acquisitions, a.released = false ↔
    (ledger.pool.objects a.object).isActive = true ∧
      a.id.useTime = (ledger.pool.objects a.object).useTime

/-- No object was acquired as often as its counter can count. -/
def Few (ledger : PoolLedger τ size) : Prop := ∀ object, ledger.timesAcquired object < 2 ^ 64

instance (ledger : PoolLedger τ size) : Decidable ledger.Few :=
  inferInstanceAs (Decidable (∀ object, ledger.timesAcquired object < 2 ^ 64))

/-- **The invariant.** -/
structure Inv (ledger : PoolLedger τ size) : Prop where
  ring : RingInv ledger.pool
  useTime : ∀ object,
    (ledger.pool.objects object).useTime = ledger.timesAcquired object % 2 ^ 64
  ids : ledger.Few → ledger.IdInv

theorem inv_start [Inhabited τ] [NeZero size] (name : String) :
    Inv (start name : PoolLedger τ size) where
  ring := ringInv_construct name
  useTime := fun _ => rfl
  ids := fun _ => ⟨nofun, nofun, nofun⟩

theorem timesAcquired_record (other : Fin size) :
    (ledger.record object).timesAcquired other =
      ledger.timesAcquired other + if object = other then 1 else 0 := by
  simp [timesAcquired, record, List.countP_append, List.countP_singleton]

theorem timesAcquired_close (other : Fin size) :
    (ledger.close object).timesAcquired other = ledger.timesAcquired other := by
  rw [timesAcquired, close, List.countP_map, timesAcquired]
  refine List.countP_congr fun a _ => ?_
  simp only [Function.comp]
  split <;> rfl

/-! ### One call -/

/-- **An object is taken**, whether `init` throws or not. -/
theorem Inv.taken (h : Inv ledger) (hne : ledger.pool.freeCount ≠ 0) :
    Inv ({ ledger with pool := ledger.pool.taken methods }.record ledger.pool.front) := by
  have hinactive := h.ring.front_inactive hne
  have htimes : ∀ other, timesAcquired
      ({ ledger with pool := ledger.pool.taken methods }.record ledger.pool.front) other =
        ledger.timesAcquired other + if ledger.pool.front = other then 1 else 0 :=
    fun other => timesAcquired_record other
  refine ⟨h.ring.taken hne, fun other => ?_, fun hfew => ?_⟩
  · rw [htimes]
    change ((ledger.pool.taken methods).objects other).useTime = _
    rw [taken_useTime, h.useTime]
    rcases eq_or_ne other ledger.pool.front with rfl | hother
    · rw [if_pos rfl, if_pos rfl, Nat.mod_add_mod]
    · rw [if_neg hother, if_neg hother.symm, Nat.add_zero]
  · have hbefore : ledger.Few := fun other => by
      have hlt := hfew other
      rw [htimes] at hlt
      omega
    have hids := h.ids hbefore
    have huse : (ledger.pool.objects ledger.pool.front).useTime + 1 < 2 ^ 64 := by
      have hlt := hfew ledger.pool.front
      rw [htimes, if_pos rfl] at hlt
      rwa [h.useTime, Nat.mod_eq_of_lt (hbefore _)]
    -- the counter of the object is now above that of every acquisition before
    have hobject : ∀ other, ((ledger.pool.taken methods).objects other).useTime =
        (ledger.pool.objects other).useTime + if other = ledger.pool.front then 1 else 0 := by
      intro other
      rw [taken_useTime]
      split
      case isTrue heq => rw [heq, Nat.mod_eq_of_lt huse]
      case isFalse => rfl
    refine ⟨fun a ha => ?_, fun a ha => ?_, fun a ha => ?_⟩
    · rcases List.mem_append.mp ha with hold | hnew
      · exact hids.index a hold
      · rw [List.mem_singleton.mp hnew]
        exact (taken_index ..).trans (h.ring.index _)
    · rcases List.mem_append.mp ha with hold | hnew
      · have hle := hids.useTime_le a hold
        change a.id.useTime ≤ ((ledger.pool.taken methods).objects a.object).useTime
        rw [hobject]
        omega
      · rw [List.mem_singleton.mp hnew]
        exact le_rfl
    · rcases List.mem_append.mp ha with hold | hnew
      · have hle := hids.useTime_le a hold
        change a.released = false ↔
          ((ledger.pool.taken methods).objects a.object).isActive = true ∧
            a.id.useTime = ((ledger.pool.taken methods).objects a.object).useTime
        rw [hids.open_iff a hold, hobject, taken_isActive]
        rcases eq_or_ne a.object ledger.pool.front with heq | hne
        · rw [heq] at hle ⊢
          rw [hinactive, if_pos rfl]
          exact iff_of_false (fun hopen => nomatch hopen.1) fun hopen => by omega
        · simp [hne]
      · rw [List.mem_singleton.mp hnew]
        refine iff_of_true rfl ⟨?_, rfl⟩
        change ((ledger.pool.taken methods).objects ledger.pool.front).isActive = true
        rw [taken_isActive]
        simp

/-- **An object is put back.** -/
theorem Inv.putBack (h : Inv ledger) (hactive : (ledger.pool.objects object).isActive = true) :
    Inv ({ ledger with pool := ledger.pool.putBack methods object }.close object) := by
  have htimes : ∀ other, timesAcquired
      ({ ledger with pool := ledger.pool.putBack methods object }.close object) other =
        ledger.timesAcquired other := fun other => timesAcquired_close other
  refine ⟨h.ring.putBack hactive, fun other => ?_, fun hfew => ?_⟩
  · rw [htimes, ← h.useTime]
    exact putBack_useTime ..
  · have hids := h.ids fun other => (htimes other) ▸ hfew other
    -- closing changes neither the object nor the `Id` of an acquisition
    have hclosed : ∀ a ∈ ledger.acquisitions.map (fun a =>
        if a.object = object then { a with released := true } else a),
        ∃ b ∈ ledger.acquisitions, a.object = b.object ∧ a.id = b.id ∧
          (a.released = false ↔ b.released = false ∧ b.object ≠ object) := by
      intro a ha
      obtain ⟨b, hb, rfl⟩ := List.mem_map.mp ha
      refine ⟨b, hb, ?_⟩
      split
      case isTrue heq => simp [heq]
      case isFalse hne => simp [hne]
    refine ⟨fun a ha => ?_, fun a ha => ?_, fun a ha => ?_⟩
    · obtain ⟨b, hb, hobject, hid, -⟩ := hclosed a ha
      rw [hobject, hid]
      exact hids.index b hb
    · obtain ⟨b, hb, hobject, hid, -⟩ := hclosed a ha
      change a.id.useTime ≤ ((ledger.pool.putBack methods object).objects a.object).useTime
      rw [hobject, hid, putBack_useTime]
      exact hids.useTime_le b hb
    · obtain ⟨b, hb, hobject, hid, hreleased⟩ := hclosed a ha
      change a.released = false ↔
        ((ledger.pool.putBack methods object).objects a.object).isActive = true ∧
          a.id.useTime = ((ledger.pool.putBack methods object).objects a.object).useTime
      rw [hreleased, hobject, hid, putBack_useTime, putBack_isActive, hids.open_iff b hb]
      simp only [decide_eq_true_eq]
      tauto

theorem Inv.write (h : Inv ledger) (object : Fin size) (value : τ) :
    Inv { ledger with pool := ledger.pool.write object value } where
  ring := h.ring.write object value
  useTime := fun other => (write_useTime ..).trans (h.useTime other)
  ids := fun hfew =>
    have hids := h.ids hfew
    { index := hids.index
      useTime_le := fun a ha => (hids.useTime_le a ha).trans_eq (write_useTime ..).symm
      open_iff := fun a ha => by
        rw [write_isActive, write_useTime]
        exact hids.open_iff a ha }

/-- **The step lemma.** -/
theorem Inv.step (hrefresh : ∀ value, (methods.refresh value).2 = false) (h : Inv ledger)
    (call : PoolCall τ size) : Inv (ledger.step methods call) := by
  cases call with
  | acquire =>
    rcases acquire_cases methods ledger.pool with ⟨-, message, hthrows⟩ | ⟨hne, hok | ⟨hthrown, -⟩⟩
    · simp only [PoolLedger.step, hthrows]
      exact h
    · simp only [PoolLedger.step, hok]
      exact h.taken hne
    · simp only [PoolLedger.step, hthrown]
      exact h.taken hne
  | release object =>
    rcases release_cases hrefresh ledger.pool object with
      ⟨message, hthrows⟩ | ⟨o, rfl, hactive, hok⟩
    · simp only [PoolLedger.step, hthrows]
      exact h
    · simp only [PoolLedger.step, hok]
      exact h.putBack hactive
  | write object value => exact h.write object value

/-! ## What holds in every run -/

/-- What is asked of a pool after any calls. -/
structure Sound (methods : PoolMethods τ) (ledger : PoolLedger τ size) : Prop where
  /-- The free entries are the inactive objects, each once. -/
  free : ledger.pool.freeSegment.Nodup ∧
    ∀ object, object ∈ ledger.pool.freeSegment ↔ (ledger.pool.objects object).isActive = false
  /-- No active object is handed out. -/
  handsOut : ∀ object, (ledger.pool.acquire methods).1 = .ok object →
    (ledger.pool.objects object).isActive = false
  /-- An `Id` is active exactly when its acquisition has not been released. -/
  ids : ∀ a ∈ ledger.acquisitions, ledger.pool.isActive a.id = !a.released
  /-- The pool throws when all objects are active, and then only. -/
  throws : (∃ message, (ledger.pool.acquire methods).1 = .error (.runtimeError message)) ↔
    ∀ object, (ledger.pool.objects object).isActive = true
  /-- A call with which the pool throws leaves it unchanged. -/
  unchanged : ∀ message,
    ((ledger.pool.acquire methods).1 = .error (.runtimeError message) →
      (ledger.pool.acquire methods).2 = ledger.pool) ∧
    ∀ object, (ledger.pool.release methods object).1 = .error (.runtimeError message) →
      (ledger.pool.release methods object).2 = ledger.pool

theorem Inv.sound (hrefresh : ∀ value, (methods.refresh value).2 = false) (h : Inv ledger)
    (hfew : ledger.Few) : ledger.Sound methods where
  free := ⟨h.ring.free.nodup, h.ring.free.mem_iff⟩
  handsOut := by
    intro object hok
    rcases acquire_cases methods ledger.pool with ⟨-, _, hacquire⟩ | ⟨hne, hacquire | ⟨hacquire, -⟩⟩
    · rw [hacquire] at hok
      cases hok
    · rw [hacquire] at hok
      cases hok
      exact h.ring.front_inactive hne
    · rw [hacquire] at hok
      cases hok
  ids := by
    intro a ha
    have hids := h.ids hfew
    have hactive : ledger.pool.isActive a.id = true ↔ _ := isActive_iff (hids.index a ha)
    rw [← hids.open_iff a ha] at hactive
    cases hreleased : a.released with
    | false => exact hactive.mpr hreleased
    | true =>
      refine Bool.eq_false_of_not_eq_true fun hid => ?_
      rw [hactive.mp hid] at hreleased
      cases hreleased
  throws := h.ring.acquire_throws_iff
  unchanged := by
    intro message
    refine ⟨fun hthrows => ?_, fun object hthrows => ?_⟩
    · rcases acquire_cases methods ledger.pool with ⟨-, _, hacquire⟩ | ⟨-, hacquire | ⟨hacquire, -⟩⟩
      · rw [hacquire]
      · rw [hacquire] at hthrows
        cases hthrows
      · rw [hacquire] at hthrows
        cases hthrows
    · rcases release_cases hrefresh ledger.pool object with ⟨_, hrelease⟩ | ⟨_, -, -, hrelease⟩
      · rw [hrelease]
      · rw [hrelease] at hthrows
        cases hthrows

/-- A released acquisition stays in the ledger as it is. -/
theorem mem_step_of_released {a : Acquisition size} (ha : a ∈ ledger.acquisitions)
    (hreleased : a.released = true) (call : PoolCall τ size) :
    a ∈ (ledger.step methods call).acquisitions := by
  have hclose : ∀ (pool : SingleThreadCachePool τ size) (object : Fin size),
      a ∈ ({ ledger with pool := pool }.close object).acquisitions := by
    intro pool object
    refine List.mem_map.mpr ⟨a, ha, ?_⟩
    split
    · rw [← hreleased]
    · rfl
  cases call with
  | acquire =>
    rw [PoolLedger.step]
    split
    · exact List.mem_append_left _ ha
    · exact List.mem_append_left _ ha
    · exact ha
  | release object =>
    simp only [PoolLedger.step]
    split
    · exact hclose _ _
    · exact ha
  | write object value => exact ha

/-- **The pool is sound after any calls**, and an `Id` that was released is never active again, for
a type whose `refresh` does not throw. -/
theorem sound_of_run [Inhabited τ] [NeZero size]
    (hrefresh : ∀ value, (methods.refresh value).2 = false) (name : String)
    (calls later : List (PoolCall τ size))
    (hfew : (Run.exec (step methods) (start name) (calls ++ later)).Few) :
    (Run.exec (step methods) (start name) (calls ++ later)).Sound methods ∧
      ∀ a ∈ (Run.exec (step methods) (start name) calls).acquisitions, a.released = true →
        (Run.exec (step methods) (start name) (calls ++ later)).pool.isActive a.id = false := by
  have hinv : Inv (Run.exec (step methods) (start name) (calls ++ later)) :=
    Run.exec_of_forall (fun _ call h => h.step hrefresh call) (inv_start name) _
  have hsound := hinv.sound hrefresh hfew
  refine ⟨hsound, fun a ha hreleased => ?_⟩
  have hstays : a ∈ (Run.exec (step methods) (start name) (calls ++ later)).acquisitions := by
    rw [Run.exec_append]
    have hkeeps : ∀ (l : PoolLedger τ size) (call : PoolCall τ size),
        a ∈ l.acquisitions → a ∈ (l.step methods call).acquisitions :=
      fun l call hmem => mem_step_of_released hmem hreleased call
    exact Run.exec_of_forall hkeeps ha later
  rw [hsound.ids a hstays, hreleased]
  rfl

/-- Both objects are acquired; one is released and acquired again. -/
def reuseRun : List (PoolCall ℕ 2) := [.acquire, .acquire, .release (some (Fin.last 1)), .acquire]

theorem sound_reuseRun :
    (Run.exec (step ⟨fun v => (v, false), fun _ => (0, false)⟩) (start "n") (reuseRun ++ [])).Sound
        ⟨fun v => (v, false), fun _ => (0, false)⟩ ∧
      ∀ a ∈ (Run.exec (step ⟨fun v => (v, false), fun _ => (0, false)⟩) (start "n")
          reuseRun).acquisitions, a.released = true →
        (Run.exec (step ⟨fun v => (v, false), fun _ => (0, false)⟩) (start "n")
          (reuseRun ++ [])).pool.isActive a.id = false :=
  sound_of_run (fun _ => rfl) "n" reuseRun [] (by decide)

/-- **An exception of `init` leaves the object taken.** -/
theorem throwingInit_changes_pool :
    ¬ ∀ error, ((construct "n" : SingleThreadCachePool ℕ 1).acquire
        ⟨fun v => (v, true), fun v => (v, false)⟩).1 = .error error →
      ((construct "n" : SingleThreadCachePool ℕ 1).acquire
        ⟨fun v => (v, true), fun v => (v, false)⟩).2 = construct "n" := by
  intro h
  have hcount := congrArg freeCount (h (.thrownBy (Fin.last 0)) rfl)
  exact absurd hcount (by decide)

end PoolLedger

end TradingEngine
