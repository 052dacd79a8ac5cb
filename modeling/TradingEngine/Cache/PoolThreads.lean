import Mathlib.Algebra.Group.Nat.Defs
import TradingEngine.Machinery.Handles
import TradingEngine.Machinery.Run

/-!
# Cache/PoolThreads — the pools that threads share

`SharedCachePool` and `CachePool` have the same ring of pointers, with an atomic head, tail and
size.  The calls of `acquire` and `release` are taken apart into their atomic steps, which threads
do in any order; an acquisition goes through those of its `acquire`, is held, and goes through those
of its `release`.
-/

namespace TradingEngine

/-- The two pools: `SharedCachePool` refreshes an object before it gives it back, `CachePool` after
that. -/
inductive PoolKind
  | shared
  | cache
  deriving DecidableEq, Repr

/-- What an acquisition does next.  Objects are numbered as in `data`. -/
inductive AcquisitionPoint
  | moveHead
  | readPointer (headIndex : ℕ)
  | decreaseSize (item : ℕ)
  | init (item : ℕ)
  | held (item : ℕ)
  | refreshFirst (item : ℕ)
  | moveTail (item : ℕ)
  | writePointer (item tailIndex : ℕ)
  | increaseSize (item : ℕ)
  | refreshLast (item : ℕ)
  | done
  deriving DecidableEq, Repr

/-- `PoolBuffer` with the acquisitions; `unread` says that a slot was written since it was read. -/
structure PoolThreads where
  availableItems : ℕ → ℕ
  head : ℕ
  tail : ℕ
  size : ℕ
  unread : ℕ → Bool
  acquisitions : List AcquisitionPoint

/-- A thread calls `acquire`, or does the next step of an acquisition; the next step of one that is
held is the call of `release`. -/
inductive PoolThreadEvent
  | acquire
  | step (acquisition : ℕ)
  deriving DecidableEq, Repr

/-- What a step does that others can see: it throws, or calls `init` or `refresh` of an object. -/
inductive PoolThreadEffect
  | threw
  | touched (acquisition item : ℕ)
  deriving DecidableEq, Repr

namespace AcquisitionPoint

/-- The object that an acquisition has. -/
def holds : AcquisitionPoint → Option ℕ
  | decreaseSize item | init item | held item | refreshFirst item | moveTail item
  | writePointer item _ => some item
  | moveHead | readPointer _ | increaseSize _ | refreshLast _ | done => none

/-- The object that `size` counts as taken. -/
def counts : AcquisitionPoint → Option ℕ
  | init item | held item | refreshFirst item | moveTail item | writePointer item _
  | increaseSize item => some item
  | moveHead | readPointer _ | decreaseSize _ | refreshLast _ | done => none

/-- The object that is given back and still to be refreshed. -/
def returns : PoolKind → AcquisitionPoint → Option ℕ
  | .cache, increaseSize item => some item
  | _, refreshLast item => some item
  | _, _ => none

/-- No call is in progress. -/
def rests : AcquisitionPoint → Bool
  | held _ | done => true
  | _ => false

end AcquisitionPoint

namespace PoolThreads

variable (kind : PoolKind) (capacity : ℕ)

/-- The constructor. -/
def start : PoolThreads where
  availableItems := id
  head := 0
  tail := 0
  size := capacity
  unread := fun _ => true
  acquisitions := []

/-- An acquisition goes on. -/
def goOn (pool : PoolThreads) (k : ℕ) (point : AcquisitionPoint) : PoolThreads :=
  { pool with acquisitions := pool.acquisitions.set k point }

/-- The next step of an acquisition. -/
def stepAt (pool : PoolThreads) (k : ℕ) : AcquisitionPoint → PoolThreads × List PoolThreadEffect
  -- `get_current_head`
  | .moveHead =>
    ({ pool with head := (pool.head + 1) % capacity }.goOn k (.readPointer pool.head), [])
  | .readPointer headIndex =>
    ({ pool with unread := Function.update pool.unread headIndex false }.goOn k
      (.decreaseSize (pool.availableItems headIndex)), [])
  | .decreaseSize item =>
    ({ pool with size := (pool.size + (2 ^ 64 - 1)) % 2 ^ 64 }.goOn k (.init item), [])
  | .init item => (pool.goOn k (.held item), [.touched k item])
  -- `release` is called
  | .held item =>
    match kind with
    | .shared => (pool.goOn k (.refreshFirst item), [])
    | .cache => (pool.goOn k (.moveTail item), [])
  | .refreshFirst item => (pool.goOn k (.moveTail item), [.touched k item])
  -- `get_current_tail`
  | .moveTail item =>
    ({ pool with tail := (pool.tail + 1) % capacity }.goOn k (.writePointer item pool.tail), [])
  | .writePointer item tailIndex =>
    ({ pool with
        availableItems := Function.update pool.availableItems tailIndex item
        unread := Function.update pool.unread tailIndex true }.goOn k (.increaseSize item), [])
  | .increaseSize item =>
    let pool := { pool with size := (pool.size + 1) % 2 ^ 64 }
    match kind with
    | .shared => (pool.goOn k .done, [])
    | .cache => (pool.goOn k (.refreshLast item), [])
  | .refreshLast item => (pool.goOn k .done, [.touched k item])
  | .done => (pool, [])

/-- **A step** of some thread. -/
def step (pool : PoolThreads) : PoolThreadEvent → PoolThreads × List PoolThreadEffect
  | .acquire =>
    if pool.size = 0 then (pool, [.threw])
    else ({ pool with acquisitions := pool.acquisitions ++ [.moveHead] }, [])
  | .step k =>
    match pool.acquisitions[k]? with
    | none => (pool, [])
    | some point => pool.stepAt kind capacity k point

/-- The objects that `size` counts as taken. -/
def counted (pool : PoolThreads) : List ℕ := pool.acquisitions.filterMap (·.counts)

end PoolThreads

end TradingEngine
