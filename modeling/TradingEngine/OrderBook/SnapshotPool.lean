import TradingEngine.Cache.ObjectPointer
import TradingEngine.OrderBook.Extraction
import TradingEngine.OrderBook.Resync

/-!
# OrderBook/SnapshotPool — what a recycled snapshot still knows

Snapshots come from a `SharedCachePool`.  `release` calls `refresh`, which sets the two sizes to
zero; `max_levels` stays as the last `resize` left it.  `get_order_book_snapshot` calls `resize`
itself, so what it hands out depends on the book alone (`extracts_iff`).  The snapshot of a REST
response is filled without a `resize`: it is complete exactly when the last user of the object has
left enough room (`recycled_iff`).
-/

namespace TradingEngine

open OrderBookSnapShot

/-- The pool of snapshots: its pointers, and what its objects hold. -/
structure SnapShotStore (size : ℕ) where
  store : PointerStore size
  objects : Fin size → OrderBookSnapShot
  pooled : ∀ object, (objects object).Pooled

/-- A call that the pool or one of its objects sees.  A snapshot is given by the place of a pointer
to it. -/
inductive SnapShotCall
  | pointer (operation : PointerOperation)
  | getOrderBookSnapshot (b : OrderBook) (levels : ℕ)
  | updateInstrument (pointer : ℕ) (instrument : Option Instrument)
  | addLevel (t : OrderBookSideType) (pointer : ℕ) (level : OrderBookLevel)

/-- A call asks for no more levels than the vectors have. -/
def SnapShotCall.Within : SnapShotCall → Prop
  | .getOrderBookSnapshot _ levels => levels ≤ capacity
  | _ => True

namespace SnapShotStore

variable {size : ℕ}

/-- A new pool. -/
def start [NeZero size] : SnapShotStore size where
  store := .start
  objects := fun _ => .construct
  pooled := fun _ => pooled_construct

variable (s : SnapShotStore size)

/-- The pointers after an operation; `release` refreshes the object that it puts back. -/
def pointerStep (operation : PointerOperation) : SnapShotStore size where
  store := (s.store.step operation).1
  objects := fun object =>
    if .released object ∈ (s.store.step operation).2 then (s.objects object).refresh
    else s.objects object
  pooled := fun object => by
    split
    · exact ⟨(s.pooled object).bids_length, (s.pooled object).asks_length⟩
    · exact s.pooled object

theorem objects_pointerStep (operation : PointerOperation) (object : Fin size) :
    (s.pointerStep operation).objects object =
      if .released object ∈ (s.store.step operation).2 then (s.objects object).refresh
      else s.objects object := rfl

/-- An object is written. -/
def write (object : Fin size) (snapshot : OrderBookSnapShot) (h : snapshot.Pooled) :
    SnapShotStore size where
  store := s.store
  objects := Function.update s.objects object snapshot
  pooled := fun other => by
    rcases eq_or_ne other object with rfl | hne
    · rwa [Function.update_self]
    · rw [Function.update_of_ne hne]
      exact s.pooled other

theorem objects_write (object : Fin size) (snapshot : OrderBookSnapShot) (h : snapshot.Pooled) :
    (s.write object snapshot h).objects = Function.update s.objects object snapshot := rfl

/-- A method of an object; `none` if it writes behind the end of a vector. -/
def modify (object : Fin size) (method : OrderBookSnapShot → Option OrderBookSnapShot)
    (h : ∀ snapshot, method (s.objects object) = some snapshot → snapshot.Pooled) :
    Option (SnapShotStore size) :=
  match hmethod : method (s.objects object) with
  | none => none
  | some snapshot => some (s.write object snapshot (h snapshot hmethod))

/-- The object behind the pointer at a place. -/
def objectAt (i : ℕ) : Option (Fin size) := (s.store.pointer i).bind (·.object)

/-- …and what it holds. -/
def snapshotAt (i : ℕ) : Option OrderBookSnapShot := (s.objectAt i).map s.objects

/-- `acquire`, and what is done with the object; nothing, if none is available. -/
def withAcquired (method : OrderBookSnapShot → Option OrderBookSnapShot)
    (h : ∀ acquired snapshot, acquired.Pooled → method acquired = some snapshot → snapshot.Pooled) :
    Option (SnapShotStore size) :=
  match s.store.pool.acquire.1 with
  | none => some (s.pointerStep .acquire)
  | some object =>
    (s.pointerStep .acquire).modify object method fun snapshot =>
      h _ snapshot ((s.pointerStep .acquire).pooled object)

theorem pooled_of_addLevels {t : OrderBookSideType} {ls : List OrderBookLevel}
    {acquired snapshot : OrderBookSnapShot} (hs : acquired.Pooled)
    (h : acquired.addLevels t ls = some snapshot) : snapshot.Pooled :=
  (filled_of_addLevels hs h).pooled

/-- **A step**: the pool after a call, or `none` if an entry behind the end of a vector is
written. -/
def step : SnapShotCall → Option (SnapShotStore size)
  | .pointer operation => some (s.pointerStep operation)
  | .getOrderBookSnapshot b levels =>
    s.withAcquired (b.getOrderBookSnapshot levels) fun _ _ hs h =>
      (OrderBook.getOrderBookSnapshot_pooled hs h).1
  | .updateInstrument i instrument =>
    match s.objectAt i with
    | none => some s
    | some object =>
      some (s.write object ((s.objects object).updateInstrument instrument)
        ⟨(s.pooled object).bids_length, (s.pooled object).asks_length⟩)
  | .addLevel t i level =>
    match s.objectAt i with
    | none => some s
    | some object =>
      s.modify object (fun snapshot => snapshot.addLevels t [level]) fun _ =>
        pooled_of_addLevels (s.pooled object)

/-- The pool after several calls. -/
def run (calls : List SnapShotCall) : Option (SnapShotStore size) :=
  calls.foldlM (fun s call => s.step call) s

/-! ## The pointers, and what is behind them -/

variable {s} {s' : SnapShotStore size} {object : Fin size}
  {method : OrderBookSnapShot → Option OrderBookSnapShot}

/-- A pointer that lives keeps its object out of the pool. -/
theorem live_of_objectAt (h : s.store.Inv) {i : ℕ} (hobject : s.objectAt i = some object) :
    s.store.live object ≠ 0 := by
  obtain ⟨p, hp, hwrapper⟩ := Option.bind_eq_some_iff.mp hobject
  have hle := PointerStore.weight_le_live hp object
  rw [← (h.coherent i p hp).2, hwrapper, Handles.weight_self] at hle
  omega

/-- `acquire` puts a pointer behind the others. -/
theorem pointerStep_acquire (hobject : s.store.pool.acquire.1 = some object) :
    (s.pointerStep .acquire).objectAt s.store.pointers.length = some object ∧
      (s.pointerStep .acquire).objects = s.objects := by
  obtain ⟨taken, pool, hacquire⟩ : ∃ taken pool, s.store.pool.acquire = (taken, pool) := ⟨_, _, rfl⟩
  rw [hacquire] at hobject
  obtain rfl : taken = some object := hobject
  have hstep : s.store.step .acquire =
      (⟨pool, s.store.pointers ++ [some (.ofWrapper object)]⟩, [.acquired object]) := by
    rw [PointerStore.step, hacquire]
  constructor
  · change ((s.store.step .acquire).1.pointer s.store.pointers.length).bind _ = _
    rw [hstep, PointerStore.pointer, List.getElem?_concat_length]
    rfl
  · funext other
    refine if_neg ?_
    rw [hstep]
    simp

/-- …if there is an object for it. -/
theorem pointerStep_acquire_none (hnone : s.store.pool.acquire.1 = none) :
    (s.pointerStep .acquire).objectAt s.store.pointers.length = none := by
  obtain ⟨taken, pool, hacquire⟩ : ∃ taken pool, s.store.pool.acquire = (taken, pool) := ⟨_, _, rfl⟩
  rw [hacquire] at hnone
  obtain rfl : taken = none := hnone
  have hstep : s.store.step .acquire = ({ s.store with pool := pool }, [.noAvailableItems]) := by
    rw [PointerStore.step, hacquire]
  change ((s.store.step .acquire).1.pointer s.store.pointers.length).bind _ = _
  rw [hstep, PointerStore.pointer, List.getElem?_eq_none le_rfl]
  rfl

theorem acquire_eq_none_iff (s : SnapShotStore size) :
    s.store.pool.acquire.1 = none ↔ s.store.pool.poolSize = 0 := by
  rw [SharedCachePool.acquire]
  split
  · exact iff_of_true rfl ‹_›
  · exact iff_of_false (Option.some_ne_none _) ‹_›

theorem modify_eq_some {snapshot : OrderBookSnapShot} {h}
    (hmethod : method (s.objects object) = some snapshot) :
    s.modify object method h = some (s.write object snapshot (h snapshot hmethod)) := by
  rw [modify]
  split
  case h_1 hnone =>
    rw [hnone] at hmethod
    cases hmethod
  case h_2 snapshot' hsome =>
    rw [hsome] at hmethod
    cases hmethod
    rfl

theorem modify_eq_none {h} (hmethod : method (s.objects object) = none) :
    s.modify object method h = none := by
  rw [modify]
  split
  case h_1 => rfl
  case h_2 hsome =>
    rw [hsome] at hmethod
    cases hmethod

/-- **`get_order_book_snapshot` on a pool**: an available object gets what the call writes. -/
theorem step_getOrderBookSnapshot (b : OrderBook) (levels : ℕ)
    (hobject : s.store.pool.acquire.1 = some object) :
    (b.getOrderBookSnapshot levels (s.objects object) = none →
        s.step (.getOrderBookSnapshot b levels) = none) ∧
      ∀ snapshot, b.getOrderBookSnapshot levels (s.objects object) = some snapshot →
        ∃ h, s.step (.getOrderBookSnapshot b levels) =
          some ((s.pointerStep .acquire).write object snapshot h) := by
  have hobjects := congrFun (pointerStep_acquire hobject).2 object
  rw [step, withAcquired]
  split
  case h_1 hnone =>
    rw [hnone] at hobject
    cases hobject
  case h_2 other hsome =>
    obtain rfl : object = other := Option.some.inj (hobject.symm.trans hsome)
    refine ⟨fun h => modify_eq_none (by rwa [hobjects]), fun snapshot h => ⟨?_, ?_⟩⟩
    · exact (OrderBook.getOrderBookSnapshot_pooled (s.pooled object) h).1
    · exact modify_eq_some (by rwa [hobjects])

theorem snapshotAt_write {i : ℕ} {snapshot : OrderBookSnapShot} {h}
    (hobject : s.objectAt i = some object) :
    (s.write object snapshot h).snapshotAt i = some snapshot := by
  have hat : (s.write object snapshot h).objectAt i = some object := hobject
  rw [snapshotAt, hat, Option.map_some]
  exact congrArg some (Function.update_self ..)

/-- **The snapshot of a book holds its best levels**, and its vectors are long enough for them,
exactly when the pool has an object and the levels to be copied are no more than the vectors
have. -/
theorem extracts_iff (s : SnapShotStore size) {b : OrderBook} (hinv : ∀ t, (b.getSide t).Inv)
    (levels : ℕ) :
    (∃ s' snapshot, s.step (.getOrderBookSnapshot b levels) = some s' ∧
        s'.snapshotAt s.store.pointers.length = some snapshot ∧
        ∀ t, (b.getSide t).Extracts levels (snapshot.sideLevels t)) ↔
      s.store.pool.poolSize ≠ 0 ∧
        ∀ t, min levels (b.getSide t).filled.ncard ≤ capacity := by
  cases hobject : s.store.pool.acquire.1 with
  | none =>
    refine iff_of_false ?_ fun h => h.1 ((acquire_eq_none_iff s).mp hobject)
    rintro ⟨s', snapshot, hstep, hat, -⟩
    have hthrown : s.step (.getOrderBookSnapshot b levels) = some (s.pointerStep .acquire) := by
      rw [step, withAcquired]
      split
      · rfl
      · rename_i hsome
        rw [hsome] at hobject
        cases hobject
    rw [hthrown] at hstep
    cases hstep
    rw [snapshotAt, pointerStep_acquire_none hobject] at hat
    cases hat
  | some object =>
    have hsize : s.store.pool.poolSize ≠ 0 := fun hzero => by
      rw [(acquire_eq_none_iff s).mpr hzero] at hobject
      cases hobject
    obtain ⟨hnone, hsome⟩ := step_getOrderBookSnapshot b levels hobject
    rw [and_iff_right hsize]
    constructor
    · rintro ⟨s', snapshot, hstep, -, -⟩
      by_contra hfits
      rw [hnone (OrderBook.getOrderBookSnapshot_eq_none hinv (s.pooled object) hfits)] at hstep
      cases hstep
    · intro hfits
      obtain ⟨snapshot, hcall, -, -, -, hlevels⟩ :=
        OrderBook.getOrderBookSnapshot_extracts hinv (s.pooled object) hfits
      obtain ⟨h, hstep⟩ := hsome snapshot hcall
      refine ⟨_, snapshot, hstep, snapshotAt_write (pointerStep_acquire hobject).1, fun t => ?_⟩
      rw [hlevels t]
      exact OrderBookSide.extracts_take _ levels

/-! ## Every history of the pool -/

/-- **What every history leaves**: a snapshot in the pool has no level in use, and no `max_levels`
is larger than the vectors. -/
structure Inv (s : SnapShotStore size) : Prop where
  store : s.store.Inv
  empty : ∀ object, s.store.live object = 0 → ∀ t, (s.objects object).sideLevels t = []
  maxLevels_le : ∀ object, (s.objects object).maxLevels ≤ capacity

theorem inv_start [NeZero size] : Inv (start : SnapShotStore size) where
  store := PointerStore.inv_start
  empty := fun _ _ t => by cases t <;> rfl
  maxLevels_le := fun _ => le_rfl

theorem Inv.pointerStep (h : s.Inv) (operation : PointerOperation) :
    (s.pointerStep operation).Inv := by
  have hstep := h.store.step operation
  refine ⟨hstep.inv, fun object hzero t => ?_, fun object => ?_⟩
  · rw [objects_pointerStep]
    split
    case isTrue => exact sideLevels_refresh t
    case isFalse hkept =>
      refine h.empty object ?_ t
      by_contra hlive
      exact hkept ((hstep.released object).mpr ⟨Nat.pos_of_ne_zero hlive, hzero⟩)
  · rw [objects_pointerStep]
    split <;> exact h.maxLevels_le object

/-- **An object outside the pool is written.** -/
theorem Inv.write (h : s.Inv) (hlive : s.store.live object ≠ 0) {snapshot : OrderBookSnapShot}
    (hpooled : snapshot.Pooled) (hle : snapshot.maxLevels ≤ capacity) :
    (s.write object snapshot hpooled).Inv := by
  refine ⟨h.store, fun other hzero => ?_, fun other => ?_⟩
  · change s.store.live other = 0 at hzero
    rw [objects_write, Function.update_of_ne (by rintro rfl; exact hlive hzero)]
    exact h.empty other hzero
  · rw [objects_write]
    rcases eq_or_ne other object with rfl | hne
    · rwa [Function.update_self]
    · rw [Function.update_of_ne hne]
      exact h.maxLevels_le other

/-- **The step lemma**: the calls write inside the vectors and keep the invariant. -/
theorem Inv.step (h : s.Inv) {call : SnapShotCall} (hcall : call.Within) :
    ∃ s', s.step call = some s' ∧ s'.Inv := by
  cases call with
  | pointer operation => exact ⟨_, rfl, h.pointerStep operation⟩
  | getOrderBookSnapshot b levels =>
    cases hobject : s.store.pool.acquire.1 with
    | none =>
      refine ⟨s.pointerStep .acquire, ?_, h.pointerStep .acquire⟩
      rw [SnapShotStore.step, withAcquired]
      split
      · rfl
      · rename_i hsome
        rw [hsome] at hobject
        cases hobject
    | some object =>
      obtain ⟨snapshot, hwritten⟩ := OrderBook.getOrderBookSnapshot_of_le (b := b)
        (s.pooled object) hcall
      obtain ⟨hpooled, hstep⟩ := (step_getOrderBookSnapshot b levels hobject).2 snapshot hwritten
      have hacquired := h.pointerStep .acquire
      refine ⟨_, hstep, hacquired.write ?_ hpooled ?_⟩
      · exact live_of_objectAt hacquired.store (pointerStep_acquire hobject).1
      · exact (OrderBook.getOrderBookSnapshot_pooled (s.pooled object) hwritten).2.trans_le hcall
  | updateInstrument i instrument =>
    rw [SnapShotStore.step]
    split
    · exact ⟨s, rfl, h⟩
    · rename_i object hobject
      exact ⟨_, rfl, h.write (live_of_objectAt h.store hobject) _ (h.maxLevels_le object)⟩
  | addLevel t i level =>
    rw [SnapShotStore.step]
    split
    · exact ⟨s, rfl, h⟩
    · rename_i object hobject
      obtain ⟨snapshot, hadd, hfilled⟩ := @addLevels_of_maxLevels_le _ t [level]
        (s.pooled object) (h.maxLevels_le object)
      refine ⟨_, modify_eq_some hadd, h.write (live_of_objectAt h.store hobject) _ ?_⟩
      exact hfilled.maxLevels_eq.trans_le (h.maxLevels_le object)

theorem run_cons (call : SnapShotCall) (calls : List SnapShotCall) :
    s.run (call :: calls) = (s.step call).bind fun s' => s'.run calls := rfl

/-- **The run lemma.** -/
theorem Inv.run (h : s.Inv) {calls : List SnapShotCall} (hcalls : ∀ c ∈ calls, c.Within) :
    ∃ s', s.run calls = some s' ∧ s'.Inv := by
  induction calls generalizing s with
  | nil => exact ⟨s, rfl, h⟩
  | cons call calls ih =>
    obtain ⟨hcall, hcalls⟩ := List.forall_mem_cons.mp hcalls
    obtain ⟨s', hstep, hinv⟩ := h.step hcall
    rw [run_cons, hstep]
    exact ih hinv hcalls

end SnapShotStore

namespace BinanceOrderBook

/-- What `send_request_get_snapshot` does with the object that `acquire` hands out: the instrument,
the asks and the bids of the response, and no `resize`. -/
def fillSnapshot (instrument : Option Instrument) (asks bids : List OrderBookLevel)
    (acquired : OrderBookSnapShot) : Option OrderBookSnapShot :=
  ((acquired.updateInstrument instrument).addLevels .ask asks).bind fun snapshot =>
    snapshot.addLevels .bid bids

variable {instrument : Option Instrument} {asks bids : List OrderBookLevel}
  {acquired : OrderBookSnapShot}

/-- **A response is copied as far as `max_levels` reaches.** -/
theorem fillSnapshot_spec (hs : acquired.Pooled) (hempty : ∀ t, acquired.sideLevels t = [])
    (hle : acquired.maxLevels ≤ capacity) :
    ∃ snapshot, fillSnapshot instrument asks bids acquired = some snapshot ∧
      snapshot.instrument = instrument ∧ snapshot.askLevels = asks.take acquired.maxLevels ∧
      snapshot.bidLevels = bids.take acquired.maxLevels := by
  have hpooled : (acquired.updateInstrument instrument).Pooled := ⟨hs.bids_length, hs.asks_length⟩
  have hempty' : ∀ t, (acquired.updateInstrument instrument).sideLevels t = [] := fun t => by
    cases t
    · exact hempty .bid
    · exact hempty .ask
  obtain ⟨s', hasks, hfilled⟩ := @addLevels_of_maxLevels_le _ .ask asks hpooled hle
  obtain ⟨s'', hbids, hfilled'⟩ := @addLevels_of_maxLevels_le _ .bid bids
    hfilled.pooled (hfilled.maxLevels_eq.trans_le hle)
  refine ⟨s'', ?_, ?_, ?_, ?_⟩
  · rw [fillSnapshot, hasks, Option.bind_some, hbids]
  · rw [hfilled'.instrument_eq, hfilled.instrument_eq]
    rfl
  · have hself := hfilled'.sideLevels_other .ask (by decide)
    rw [hfilled.sideLevels_self, room, hempty'] at hself
    exact hself
  · have hself := hfilled'.sideLevels_self
    rw [hfilled.sideLevels_other .bid (by decide), hempty', room, hfilled.maxLevels_eq,
      hfilled.sideLevels_other .bid (by decide), hempty'] at hself
    exact hself

/-- A response is in a snapshot: the asks and the bids that the vectors have place for, in their
order. -/
def Holds (asks bids : List OrderBookLevel) (snapshot : OrderBookSnapShot) : Prop :=
  snapshot.askLevels = asks.take capacity ∧ snapshot.bidLevels = bids.take capacity

/-- **A new object** takes all of a response. -/
theorem holds_construct (instrument : Option Instrument) (asks bids : List OrderBookLevel) :
    ∃ fresh, fillSnapshot instrument asks bids .construct = some fresh ∧
      fresh.instrument = instrument ∧ Holds asks bids fresh := by
  obtain ⟨fresh, hfill, hinstrument, hasks, hbids⟩ := @fillSnapshot_spec instrument
    asks bids _ pooled_construct (fun t => by cases t <;> rfl) le_rfl
  exact ⟨fresh, hfill, hinstrument, hasks, hbids⟩

/-- **A recycled object**, after every history of the pool, takes all of a response exactly when its
`max_levels` are enough. -/
theorem recycled_iff {size : ℕ} [NeZero size] {calls : List SnapShotCall}
    (hcalls : ∀ c ∈ calls, c.Within) :
    ∃ s, (SnapShotStore.start : SnapShotStore size).run calls = some s ∧
      ∀ object, s.store.pool.acquire.1 = some object →
        ∀ (instrument : Option Instrument) (asks bids : List OrderBookLevel),
          (∃ snapshot fresh, fillSnapshot instrument asks bids (s.objects object) = some snapshot ∧
              fillSnapshot instrument asks bids .construct = some fresh ∧
              Holds asks bids snapshot ∧ snapshot.instrument = fresh.instrument ∧
              snapshot.askLevels = fresh.askLevels ∧ snapshot.bidLevels = fresh.bidLevels) ↔
            min asks.length capacity ≤ (s.objects object).maxLevels ∧
              min bids.length capacity ≤ (s.objects object).maxLevels := by
  obtain ⟨s, hrun, hinv⟩ := (@SnapShotStore.inv_start size _).run hcalls
  refine ⟨s, hrun, fun object hobject instrument asks bids => ?_⟩
  have hzero : s.store.live object = 0 := by
    rcases hinv.store.counted.acquire with hnone | ⟨object', pool', hsome, hzero, -⟩
    · rw [hnone] at hobject
      cases hobject
    · rw [hsome] at hobject
      cases hobject
      exact hzero
  have hle := hinv.maxLevels_le object
  obtain ⟨snapshot, hfill, hinstrument, hasks, hbids⟩ := @fillSnapshot_spec
    instrument asks bids _ (s.pooled object)
    (hinv.empty object hzero) hle
  obtain ⟨fresh, hfresh, hinstrument', hasks', hbids'⟩ := holds_construct instrument asks bids
  have htake : ∀ ls : List OrderBookLevel,
      ls.take (s.objects object).maxLevels = ls.take capacity ↔
        min ls.length capacity ≤ (s.objects object).maxLevels := fun ls => by
    rw [List.take_eq_take_iff]
    omega
  rw [← htake, ← htake]
  constructor
  · rintro ⟨snapshot', -, hfill', -, hholds, -⟩
    obtain rfl : snapshot = snapshot' := Option.some.inj (hfill.symm.trans hfill')
    exact ⟨hasks ▸ hholds.1, hbids ▸ hholds.2⟩
  · rintro ⟨htakeAsks, htakeBids⟩
    refine ⟨snapshot, fresh, hfill, hfresh, ⟨hasks.trans htakeAsks, hbids.trans htakeBids⟩,
      hinstrument.trans hinstrument'.symm, ?_, ?_⟩
    · rw [hasks, hasks', htakeAsks]
    · rw [hbids, hbids', htakeBids]

end BinanceOrderBook

/-! ## A book with more levels than a snapshot has entries -/

namespace OrderBook

open OrderBookSide

/-- A unit at each of several indices of a side. -/
def units (side : OrderBookSide) (is : List ℕ) : List OrderBookLevel :=
  is.map fun i => ⟨side.indexToPrice i, 1⟩

/-- **Units are set one after the other.** -/
theorem filled_setSideLevels_units (b : OrderBook) (t : OrderBookSideType) {is : List ℕ}
    (his : ∀ i ∈ is, i < (b.getSide t).depth) :
    ((b.setSideLevels t (units (b.getSide t) is)).getSide t).filled =
      (b.getSide t).filled ∪ {i | i ∈ is} := by
  induction is generalizing b with
  | nil => simp [units, setSideLevels]
  | cons i is ih =>
    obtain ⟨hi, his⟩ := List.forall_mem_cons.mp his
    have hside : (b.setSideLevel t ((b.getSide t).indexToPrice i) 1).getSide t =
        (b.getSide t).setLevel ((b.getSide t).indexToPrice i) 1 := by
      rw [getSide_setSideLevel, if_pos rfl]
    have hindex := (b.getSide t).priceToIndex_indexToPrice hi
    have hunits : units (b.getSide t) is =
        units ((b.setSideLevel t ((b.getSide t).indexToPrice i) 1).getSide t) is := by
      refine List.map_congr_left fun j _ => ?_
      rw [hside, indexToPrice_congr ((b.getSide t).setLevel_geometry _ 1)]
    have hcons : b.setSideLevels t (units (b.getSide t) (i :: is)) =
        (b.setSideLevel t ((b.getSide t).indexToPrice i) 1).setSideLevels t
          (units (b.getSide t) is) := rfl
    rw [hcons, hunits, ih _ (by rw [hside, setLevel_depth]; exact his), hside,
      filled_setLevel_of_pos (hindex.symm ▸ hi) one_pos, hindex]
    ext j
    simp only [Set.mem_union, Set.mem_insert_iff, Set.mem_ofPred_eq, List.mem_cons]
    tauto

end OrderBook

/-- A new book of 402 ticks around 1000. -/
def bookAtThousand : OrderBook := .fresh none 1000 1 402 40 unitTick_pos (by norm_num) (by decide)

/-- …with 201 bids, at 799 to 999. -/
def deepBook : OrderBook :=
  bookAtThousand.setSideLevels .bid (OrderBook.units bookAtThousand.bids (List.range 201))

theorem inv_deepBook (t : OrderBookSideType) : (deepBook.getSide t).Inv := by
  have hfresh : Placed 1000 1 402 bookAtThousand :=
    @Placed.exec _ _ _ none 40 _ rfl []
  exact (hfresh.setSideLevels .bid _).inv t

theorem ncard_filled_deepBook : (deepBook.getSide .bid).filled.ncard = 201 := by
  have hempty : (bookAtThousand.getSide .bid).filled = ∅ := by
    refine Set.eq_empty_of_forall_notMem fun i hi => ?_
    exact absurd (OrderBookSide.quantityAtIndex_fresh _ _ _ i) (ne_of_gt hi)
  have hset : {i | i ∈ List.range 201} = ((Finset.range 201 : Finset ℕ) : Set ℕ) := by
    ext i
    simp
  have hfilled := @OrderBook.filled_setSideLevels_units bookAtThousand .bid (List.range 201)
    fun i hi => (List.mem_range.mp hi).trans (by decide)
  rw [hempty, Set.empty_union, hset] at hfilled
  exact (congrArg Set.ncard hfilled).trans (by rw [Set.ncard_coe_finset, Finset.card_range])

/-- A snapshot pool is made for this many objects. -/
abbrev snapShotPoolSize : ℕ := 10000

namespace SnapShotStore

/-- The 201st bid is written behind the 200 entries. -/
theorem deepBook_not_extracted :
    (∀ t, (deepBook.getSide t).Inv) ∧
      (start : SnapShotStore snapShotPoolSize).store.pool.poolSize ≠ 0 ∧
      (start : SnapShotStore snapShotPoolSize).step (.getOrderBookSnapshot deepBook 201) = none := by
  refine ⟨inv_deepBook, Nat.succ_ne_zero _, ?_⟩
  have hacquire : (start : SnapShotStore snapShotPoolSize).store.pool.acquire.1 =
      some ⟨0, by decide⟩ := rfl
  refine (step_getOrderBookSnapshot deepBook 201 hacquire).1 ?_
  refine OrderBook.getOrderBookSnapshot_eq_none inv_deepBook pooled_construct fun hfits => ?_
  have hbids := hfits .bid
  rw [ncard_filled_deepBook] at hbids
  exact absurd hbids (by decide)

/-- The book that stands at 11 is copied into the first object. -/
theorem bookAtTen_extracted :
    ∃ s' snapshot, (start : SnapShotStore snapShotPoolSize).step
        (.getOrderBookSnapshot (Run.exec OrderBook.call bookAtTen callsAtTen) 20) = some s' ∧
      s'.snapshotAt 0 = some snapshot ∧
      ∀ t, ((Run.exec OrderBook.call bookAtTen callsAtTen).getSide t).Extracts 20
        (snapshot.sideLevels t) :=
  (extracts_iff start (Placed.exec create_bookAtTen callsAtTen).inv 20).mpr
    ⟨Nat.succ_ne_zero _, fun _ => (Nat.min_le_left _ _).trans (by decide)⟩

end SnapShotStore

/-! ## Once around the ring -/

/-- **An object is taken and put back**: it goes behind the others. -/
theorem PointerStore.step_acquire_destroy {size : ℕ} (store : PointerStore size)
    (hsize : store.pool.poolSize ≠ 0) :
    (store.step .acquire).1.step (.destroy store.pointers.length) =
      (⟨{ availableItems := Function.update store.pool.availableItems store.pool.tail
            (store.pool.availableItems store.pool.head)
          referenceCounter := Function.update store.pool.referenceCounter
            (store.pool.availableItems store.pool.head) 0
          head := Ring.next size store.pool.head
          tail := Ring.next size store.pool.tail
          poolSize := store.pool.poolSize },
        store.pointers ++ [none]⟩,
        [.released (store.pool.availableItems store.pool.head)]) := by
  have hcount : store.pool.poolSize - 1 + 1 = store.pool.poolSize := by omega
  simp [step, SharedCachePool.acquire, hsize, pointer, ObjectPointer.ofWrapper,
    SharedCachePool.fetchSub, SharedCachePool.release, hcount]

namespace SnapShotStore

variable {size : ℕ} [NeZero size]

/-- A snapshot of twenty levels is taken and dropped. -/
def cycle (n : ℕ) : List SnapShotCall :=
  [.getOrderBookSnapshot bookAtTen 20, .pointer (.destroy n)]

/-- …`n` times. -/
def cycles (n : ℕ) : List SnapShotCall := (List.range n).flatMap cycle

/-- The pool after `n` of these: the first `n` objects have room for twenty levels. -/
structure Cycled (n : ℕ) (s : SnapShotStore size) : Prop where
  pointers_eq : s.store.pointers = List.replicate n none
  items_eq : s.store.pool.availableItems = fun i => Fin.ofNat size i
  head_eq : s.store.pool.head = n % size
  tail_eq : s.store.pool.tail = n % size
  poolSize_eq : s.store.pool.poolSize = size
  objects_eq : ∀ object : Fin size,
    s.objects object = if object < n then OrderBookSnapShot.construct.resize 20 else .construct

theorem cycled_start : Cycled 0 (start : SnapShotStore size) where
  pointers_eq := rfl
  items_eq := rfl
  head_eq := (Nat.zero_mod size).symm
  tail_eq := (Nat.zero_mod size).symm
  poolSize_eq := rfl
  objects_eq := fun _ => rfl

variable {n : ℕ} {s : SnapShotStore size}

/-- The object at the head is the next one. -/
theorem Cycled.acquire (h : Cycled n s) :
    s.store.pool.acquire.1 = some (Fin.ofNat size n) := by
  have hsize : s.store.pool.poolSize ≠ 0 := by
    rw [h.poolSize_eq]
    exact NeZero.ne size
  have hat : s.store.pool.availableItems s.store.pool.head = Fin.ofNat size n := by
    rw [h.items_eq, h.head_eq]
    exact Fin.ext (Nat.mod_mod n size)
  rw [SharedCachePool.acquire, if_neg hsize, hat]

theorem Cycled.next (h : Cycled n s) (hn : n < size) :
    ∃ s', s.run (cycle n) = some s' ∧ Cycled (n + 1) s' := by
  have hval : ((Fin.ofNat size n : Fin size) : ℕ) = n := Nat.mod_eq_of_lt hn
  have hsize : s.store.pool.poolSize ≠ 0 := by
    rw [h.poolSize_eq]
    exact NeZero.ne size
  have hnew : s.objects (Fin.ofNat size n) = .construct := by
    rw [h.objects_eq, if_neg]
    omega
  obtain ⟨hpooled, hstep⟩ := (step_getOrderBookSnapshot bookAtTen 20 h.acquire).2
    (OrderBookSnapShot.construct.resize 20) (by rw [hnew]; rfl)
  have hhead : s.store.pool.availableItems s.store.pool.head = Fin.ofNat size n := by
    rw [h.items_eq, h.head_eq]
    exact Fin.ext (Nat.mod_mod n size)
  have hdestroy := s.store.step_acquire_destroy hsize
  rw [hhead, h.pointers_eq, List.length_replicate] at hdestroy
  have hitems : Function.update s.store.pool.availableItems s.store.pool.tail (Fin.ofNat size n) =
      fun i => Fin.ofNat size i := by
    rw [h.items_eq, h.tail_eq, Function.update_eq_self_iff]
    exact Fin.ext (Nat.mod_mod n size).symm
  refine ⟨_, by rw [cycle, run_cons, hstep]; rfl, ?_, ?_, ?_, ?_, ?_, fun object => ?_⟩
  · refine (congrArg (fun r => r.1.pointers) hdestroy).trans ?_
    exact List.replicate_succ'.symm
  · exact (congrArg (fun r => r.1.pool.availableItems) hdestroy).trans hitems
  · refine (congrArg (fun r => r.1.pool.head) hdestroy).trans ?_
    rw [h.head_eq]
    exact Nat.mod_add_mod n size 1
  · refine (congrArg (fun r => r.1.pool.tail) hdestroy).trans ?_
    rw [h.tail_eq]
    exact Nat.mod_add_mod n size 1
  · exact (congrArg (fun r => r.1.pool.poolSize) hdestroy).trans h.poolSize_eq
  · have hreleased := congrArg Prod.snd hdestroy
    rw [objects_pointerStep, objects_write, (pointerStep_acquire h.acquire).2]
    change (if _ ∈ ((s.store.step .acquire).1.step (.destroy n)).2 then _ else _) = _
    rw [hreleased]
    rcases eq_or_ne object (Fin.ofNat size n) with rfl | hne
    · rw [Function.update_self, if_pos (List.mem_singleton_self _), if_pos (by omega)]
      rfl
    · have hvalue : (object : ℕ) ≠ n := fun heq => hne (Fin.ext (heq.trans hval.symm))
      have hlt : (object : ℕ) < n + 1 ↔ (object : ℕ) < n := by omega
      rw [Function.update_of_ne hne, if_neg (by simpa using hne), h.objects_eq]
      simp only [hlt]

omit [NeZero size] in
theorem run_append {calls calls' : List SnapShotCall} :
    s.run (calls ++ calls') = (s.run calls).bind fun s' => s'.run calls' :=
  List.foldlM_append

theorem cycled_run (hn : n ≤ size) :
    ∃ s' : SnapShotStore size, start.run (cycles n) = some s' ∧ Cycled n s' := by
  induction n with
  | zero => exact ⟨start, rfl, cycled_start⟩
  | succ n ih =>
    obtain ⟨s, hrun, hcycled⟩ := ih (Nat.le_of_succ_le hn)
    obtain ⟨s', hcycle, hnext⟩ := hcycled.next hn
    refine ⟨s', ?_, hnext⟩
    have hsucc : cycles (n + 1) = cycles n ++ cycle n := by
      simp [cycles, List.range_succ]
    rw [hsucc, run_append, hrun, Option.bind_some, hcycle]

theorem within_cycles : ∀ c ∈ cycles n, c.Within := by
  intro c hc
  obtain ⟨i, -, hc⟩ := List.mem_flatMap.mp hc
  rcases List.mem_pair.mp hc with rfl | rfl
  · show 20 ≤ capacity
    decide
  · trivial

end SnapShotStore

namespace BinanceOrderBook

open SnapShotStore

/-- A response with twenty-one asks at 1, 2, … -/
def responseAsks : List OrderBookLevel := (List.range 21).map fun i => ⟨i + 1, 1⟩

/-- **The twenty-first ask is lost**: the object has served a snapshot of twenty levels before. -/
theorem recycled_not_holds :
    (∀ c ∈ cycles snapShotPoolSize, c.Within) ∧
      ∃ s object snapshot, (SnapShotStore.start : SnapShotStore snapShotPoolSize).run
          (cycles snapShotPoolSize) = some s ∧
        s.store.pool.acquire.1 = some object ∧
        fillSnapshot none responseAsks [] (s.objects object) = some snapshot ∧
        ¬ Holds responseAsks [] snapshot := by
  obtain ⟨s, hrun, hcycled⟩ := @cycled_run snapShotPoolSize _ _ le_rfl
  have hobject : s.objects (Fin.ofNat snapShotPoolSize snapShotPoolSize) =
      OrderBookSnapShot.construct.resize 20 := by
    rw [hcycled.objects_eq]
    rfl
  obtain ⟨snapshot, hfill, -, hasks, -⟩ := @fillSnapshot_spec none responseAsks []
    (OrderBookSnapShot.construct.resize 20)
    ⟨rfl, rfl⟩ (fun t => by cases t <;> rfl)
    (show 20 ≤ 200 by norm_num)
  rw [← hobject] at hfill
  refine ⟨within_cycles, s, _, snapshot, hrun, hcycled.acquire, hfill, fun hholds => ?_⟩
  have hlength := congrArg List.length (hholds.1.symm.trans hasks)
  simp only [List.length_take, show responseAsks.length = 21 from rfl] at hlength
  exact absurd hlength (show min 200 21 ≠ min 20 21 by decide)

/-- A response with less than the object has room for. -/
theorem recycled_holds :
    ∃ s object snapshot fresh, (SnapShotStore.start : SnapShotStore 1).run (cycles 1) = some s ∧
      s.store.pool.acquire.1 = some object ∧
      fillSnapshot none [⟨11, 1⟩] [⟨10, 1⟩] (s.objects object) = some snapshot ∧
      fillSnapshot none [⟨11, 1⟩] [⟨10, 1⟩] .construct = some fresh ∧
      Holds [⟨11, 1⟩] [⟨10, 1⟩] snapshot ∧
      snapshot.askLevels = fresh.askLevels ∧ snapshot.bidLevels = fresh.bidLevels := by
  obtain ⟨s, hrun, hcycled⟩ := @cycled_run 1 _ _ le_rfl
  obtain ⟨s', hrun', hiff⟩ := @recycled_iff 1 _ (cycles 1) within_cycles
  obtain rfl : s = s' := Option.some.inj (hrun.symm.trans hrun')
  have hmax : (s.objects (Fin.ofNat 1 1)).maxLevels = 20 := by
    rw [hcycled.objects_eq]
    rfl
  obtain ⟨snapshot, fresh, hfill, hfresh, hholds, -, hasks, hbids⟩ :=
    (hiff _ hcycled.acquire none [⟨11, 1⟩] [⟨10, 1⟩]).mpr (by rw [hmax]; decide)
  exact ⟨s, _, snapshot, fresh, hrun, hcycled.acquire, hfill, hfresh, hholds, hasks, hbids⟩

end BinanceOrderBook

end TradingEngine
