import TradingEngine.OrderBook.Book

/-!
# OrderBook/Manager — one book for each instrument

`OrderBookManager` finds the book of an instrument, or creates it around the price of the update
that asks for it.  A single update looks its book up itself.  A vector of updates looks one book up,
that of its first element, and does so before the null check: the two agree on every manager exactly
when the vector is empty, or its first element has an instrument and no element has another one
(`runUpdates_eq_foldlM_iff`).

An exception leaves a task through `unhandled_exception`, which ends the program.
-/

namespace TradingEngine

/-- How an update can fail: it reads a null instrument, or the constructor of a book throws. -/
inductive UpdateFailure
  | nullInstrument
  | terminate (what : String)
  deriving DecidableEq, Repr

/-- `OrderBookManager`: its books, each under its own instrument. -/
structure OrderBookManager where
  orderBooks : Instrument → Option OrderBook
  depth : ℕ
  instrument_eq : ∀ i b, orderBooks i = some b → b.instrument = some i

namespace OrderBook

variable (b : OrderBook)

theorem instrument_setSideLevel (t : OrderBookSideType) (price quantity : ℚ) :
    (b.setSideLevel t price quantity).instrument = b.instrument := by
  cases t <;> rfl

theorem instrument_maybeRebase : b.maybeRebase.instrument = b.instrument := by
  rw [maybeRebase]
  split <;> rfl

theorem instrument_applyUpdate (u : OrderBookUpdate) :
    (b.applyUpdate u).instrument = b.instrument := by
  rw [applyUpdate, instrument_maybeRebase, applyUpdateWithoutRebase]
  split <;> exact b.instrument_setSideLevel _ _ _

theorem instrument_setSideLevels (t : OrderBookSideType) (levels : List OrderBookLevel) :
    (b.setSideLevels t levels).instrument = b.instrument := by
  induction levels generalizing b with
  | nil => rfl
  | cons l levels ih => exact (ih _).trans (b.instrument_setSideLevel t _ _)

theorem instrument_applySnapshot (snapshot : OrderBookSnapShot) :
    (b.applySnapshot snapshot).instrument = b.instrument := by
  rw [applySnapshot, instrument_maybeRebase, loadSnapshot, instrument_setSideLevels,
    instrument_setSideLevels]
  rfl

theorem instrument_of_createDefault {i : Option Instrument} {price tick : ℚ} {depth : ℕ}
    (h : createDefault i price tick depth = .ok b) : b.instrument = i := by
  obtain ⟨_, _, _, rfl⟩ := create_eq_ok h
  rfl

end OrderBook

namespace OrderBookManager

variable (m : OrderBookManager)

/-- A manager without books. -/
def empty (depth : ℕ) : OrderBookManager where
  orderBooks := fun _ => none
  depth := depth
  instrument_eq := fun _ _ h => by cases h

/-- `m_order_books.emplace(instrument, order_book)`, for an instrument that has no book. -/
def emplace (i : Instrument) (b : OrderBook) (h : b.instrument = some i) : OrderBookManager where
  orderBooks := Function.update m.orderBooks i (some b)
  depth := m.depth
  instrument_eq := fun j b' hb' => by
    rcases eq_or_ne j i with rfl | hne
    · rw [Function.update_self] at hb'
      cases hb'
      exact h
    · rw [Function.update_of_ne hne] at hb'
      exact m.instrument_eq j b' hb'

/-- The book of an instrument is changed through a reference to it. -/
def modify (i : Instrument) (f : OrderBook → OrderBook)
    (hf : ∀ b, (f b).instrument = b.instrument) : OrderBookManager where
  orderBooks := Function.update m.orderBooks i ((m.orderBooks i).map f)
  depth := m.depth
  instrument_eq := fun j b' hb' => by
    rcases eq_or_ne j i with rfl | hne
    · rw [Function.update_self] at hb'
      obtain ⟨b, hb, rfl⟩ := Option.map_eq_some_iff.mp hb'
      rw [hf, m.instrument_eq j b hb]
    · rw [Function.update_of_ne hne] at hb'
      exact m.instrument_eq j b' hb'

/-- `get_or_create_order_book`: the instrument whose book is referred to, and the manager with that
book.  A null instrument is never a key, and its `price_precision` is read. -/
def getOrCreateOrderBook (instrument : Option Instrument) (price : ℚ) :
    Except UpdateFailure (Instrument × OrderBookManager) :=
  match instrument with
  | none => .error .nullInstrument
  | some i =>
    match m.orderBooks i with
    | some _ => .ok (i, m)
    | none =>
      match hbook : OrderBook.createDefault (some i) price i.pricePrecision m.depth with
      | .ok b => .ok (i, m.emplace i b (b.instrument_of_createDefault hbook))
      | .error what => .error (.terminate what)

/-- `order_book.apply_update(update)`. -/
def applyUpdate (i : Instrument) (u : OrderBookUpdate) : OrderBookManager :=
  m.modify i (·.applyUpdate u) fun b => b.instrument_applyUpdate u

/-- `run_update_order_book_data(OrderBookUpdateObject)`, up to what it publishes. -/
def runUpdate (u : OrderBookUpdate) : Except UpdateFailure OrderBookManager :=
  match u.instrument with
  | none => .ok m
  | some _ =>
    match m.getOrCreateOrderBook u.instrument u.price with
    | .error failure => .error failure
    | .ok (i, m) => .ok (m.applyUpdate i u)

/-- One turn of the loop over a vector of updates. -/
def applyUnlessNull (i : Instrument) (m : OrderBookManager) (u : OrderBookUpdate) :
    OrderBookManager :=
  match u.instrument with
  | none => m
  | some _ => m.applyUpdate i u

/-- `run_update_order_book_data(std::vector<OrderBookUpdate>)`, up to what it publishes. -/
def runUpdates (updates : List OrderBookUpdate) : Except UpdateFailure OrderBookManager :=
  match updates with
  | [] => .ok m
  | first :: _ =>
    match m.getOrCreateOrderBook first.instrument first.price with
    | .error failure => .error failure
    | .ok (i, m) => .ok (updates.foldl (applyUnlessNull i) m)

/-- `get_snapshot_reference_price`. -/
def getSnapshotReferencePrice (snapshot : OrderBookSnapShot) : ℚ :=
  match snapshot.bidLevels, snapshot.askLevels with
  | bid :: _, _ => bid.price
  | [], ask :: _ => ask.price
  | [], [] => 0

/-- `run_update_order_book_data(OrderBookSnapShotObject)`, up to what it publishes. -/
def runSnapshot (snapshot : OrderBookSnapShot) : Except UpdateFailure OrderBookManager :=
  match snapshot.instrument with
  | none => .ok m
  | some _ =>
    match m.getOrCreateOrderBook snapshot.instrument (getSnapshotReferencePrice snapshot) with
    | .error failure => .error failure
    | .ok (i, m) => .ok (m.modify i (·.applySnapshot snapshot) fun b =>
        b.instrument_applySnapshot snapshot)

/-! ## A book once found is found again -/

variable {m}

theorem getOrCreateOrderBook_of_some {i : Instrument} {b : OrderBook}
    (h : m.orderBooks i = some b) (price : ℚ) :
    m.getOrCreateOrderBook (some i) price = .ok (i, m) := by
  rw [getOrCreateOrderBook]
  simp only [h]

/-- What `get_or_create_order_book` gives back refers to a book. -/
theorem getOrCreateOrderBook_eq_ok {instrument : Option Instrument} {price : ℚ} {i : Instrument}
    {m' : OrderBookManager} (h : m.getOrCreateOrderBook instrument price = .ok (i, m')) :
    instrument = some i ∧ m'.orderBooks i ≠ none ∧
      ∀ j, j ≠ i → m'.orderBooks j = m.orderBooks j := by
  unfold getOrCreateOrderBook at h
  split at h
  · cases h
  · rename_i i'
    split at h
    · rename_i b hb
      cases h
      exact ⟨rfl, by simp [hb], fun _ _ => rfl⟩
    · split at h
      · cases h
        refine ⟨rfl, ?_, fun j hj => Function.update_of_ne hj ..⟩
        simp [emplace]
      · cases h

theorem orderBooks_applyUpdate (i j : Instrument) (u : OrderBookUpdate) :
    (m.applyUpdate i u).orderBooks j =
      if j = i then (m.orderBooks i).map (·.applyUpdate u) else m.orderBooks j := by
  rw [applyUpdate, modify]
  exact Function.update_apply ..

theorem runUpdates_of_found {first : OrderBookUpdate} {i : Instrument} {m' : OrderBookManager}
    {updates : List OrderBookUpdate}
    (h : m.getOrCreateOrderBook first.instrument first.price = .ok (i, m')) :
    m.runUpdates (first :: updates) = .ok ((first :: updates).foldl (applyUnlessNull i) m') := by
  rw [runUpdates, h]

theorem runUpdate_of_some {i : Instrument} (h : m.orderBooks i ≠ none) {u : OrderBookUpdate}
    (hu : u.instrument = some i) : m.runUpdate u = .ok (m.applyUpdate i u) := by
  obtain ⟨b, hb⟩ := Option.ne_none_iff_exists'.mp h
  rw [runUpdate, hu]
  simp only [getOrCreateOrderBook_of_some hb]

/-- An element of a batch leaves the other books alone. -/
theorem orderBooks_applyUnlessNull {i j : Instrument} (hj : j ≠ i) (u : OrderBookUpdate) :
    (applyUnlessNull i m u).orderBooks j = m.orderBooks j := by
  rw [applyUnlessNull]
  split
  · rfl
  · rw [orderBooks_applyUpdate, if_neg hj]

theorem applyUnlessNull_ne_none {i : Instrument} (h : m.orderBooks i ≠ none) (u : OrderBookUpdate) :
    (applyUnlessNull i m u).orderBooks i ≠ none := by
  rw [applyUnlessNull]
  split
  · exact h
  · rw [orderBooks_applyUpdate, if_pos rfl]
    simpa using h

/-! ## A batch for one instrument -/

/-- The elements of a vector are for one instrument, or for none. -/
def Uniform (i : Instrument) (updates : List OrderBookUpdate) : Prop :=
  ∀ u ∈ updates, u.instrument = none ∨ u.instrument = some i

/-- **Single updates of one book** are the loop of a batch. -/
theorem foldlM_runUpdate {i : Instrument} {updates : List OrderBookUpdate}
    (h : m.orderBooks i ≠ none) (hall : Uniform i updates) :
    updates.foldlM runUpdate m = .ok (updates.foldl (applyUnlessNull i) m) := by
  induction updates generalizing m with
  | nil => rfl
  | cons u updates ih =>
    obtain ⟨hu, hall⟩ := List.forall_mem_cons.mp hall
    have hstep : m.runUpdate u = .ok (applyUnlessNull i m u) := by
      rcases hu with hnone | hsome
      · rw [runUpdate, applyUnlessNull, hnone]
      · rw [runUpdate_of_some h hsome, applyUnlessNull, hsome]
    rw [List.foldlM_cons, hstep]
    exact ih (applyUnlessNull_ne_none h u) hall

/-- **A batch for one instrument is its updates one by one**, also where the book has to be
created. -/
theorem runUpdates_eq_foldlM {i : Instrument} {first : OrderBookUpdate}
    {updates : List OrderBookUpdate} (hfirst : first.instrument = some i)
    (hall : Uniform i updates) :
    m.runUpdates (first :: updates) = (first :: updates).foldlM runUpdate m := by
  rw [List.foldlM_cons, runUpdates, runUpdate, hfirst]
  cases hbook : m.getOrCreateOrderBook (some i) first.price with
  | error failure => rfl
  | ok found =>
    obtain ⟨i', m'⟩ := found
    obtain ⟨hi, hne, -⟩ := getOrCreateOrderBook_eq_ok hbook
    obtain rfl : i = i' := Option.some.inj hi
    have hfirst' : applyUnlessNull i m' first = m'.applyUpdate i first := by
      rw [applyUnlessNull, hfirst]
    change Except.ok _ = updates.foldlM runUpdate (m'.applyUpdate i first)
    rw [List.foldl_cons, hfirst', foldlM_runUpdate ?_ hall]
    exact hfirst' ▸ applyUnlessNull_ne_none hne first

/-! ## Any other batch -/

/-- A single update reads no null instrument. -/
theorem runUpdate_ne_nullInstrument (m : OrderBookManager) (u : OrderBookUpdate) :
    m.runUpdate u ≠ .error .nullInstrument := by
  rw [runUpdate]
  split
  · simp
  · rename_i i hi
    rw [hi]
    split
    · rename_i failure hfailure
      unfold getOrCreateOrderBook at hfailure
      simp only at hfailure
      split at hfailure
      · cases hfailure
      · split at hfailure
        · cases hfailure
        · cases hfailure
          simp
    · simp

theorem foldlM_runUpdate_ne_nullInstrument (m : OrderBookManager)
    (updates : List OrderBookUpdate) :
    updates.foldlM runUpdate m ≠ .error .nullInstrument := by
  induction updates generalizing m with
  | nil => simp [pure, Except.pure]
  | cons u updates ih =>
    rw [List.foldlM_cons]
    cases hstep : m.runUpdate u with
    | error failure =>
      intro h
      exact runUpdate_ne_nullInstrument m u (hstep.trans h)
    | ok m' => exact ih m'

/-- A single update keeps every book, and leaves one for its own instrument. -/
theorem orderBooks_runUpdate {m' : OrderBookManager} {u : OrderBookUpdate}
    (h : m.runUpdate u = .ok m') {j : Instrument}
    (hj : m.orderBooks j ≠ none ∨ u.instrument = some j) : m'.orderBooks j ≠ none := by
  rw [runUpdate] at h
  split at h
  · rename_i hnone
    cases h
    rcases hj with hj | hj
    · exact hj
    · rw [hnone] at hj
      cases hj
  · split at h
    · cases h
    · rename_i i' m'' hbook
      cases h
      obtain ⟨hi, hne, hother⟩ := getOrCreateOrderBook_eq_ok hbook
      rw [orderBooks_applyUpdate]
      split
      · simpa using hne
      · rename_i hji
        rw [hother j hji]
        refine hj.resolve_right fun hj => hji ?_
        exact Option.some.inj (hj.symm.trans hi)

theorem orderBooks_foldlM_runUpdate {m' : OrderBookManager} {updates : List OrderBookUpdate}
    (h : updates.foldlM runUpdate m = .ok m') {j : Instrument}
    (hj : m.orderBooks j ≠ none ∨ ∃ u ∈ updates, u.instrument = some j) :
    m'.orderBooks j ≠ none := by
  induction updates generalizing m with
  | nil =>
    cases h
    simpa using hj
  | cons u updates ih =>
    rw [List.foldlM_cons] at h
    cases hstep : m.runUpdate u with
    | error failure =>
      rw [hstep] at h
      cases h
    | ok m'' =>
      rw [hstep] at h
      refine ih h ?_
      rcases hj with hj | ⟨u', hu', hj⟩
      · exact .inl (orderBooks_runUpdate hstep (.inl hj))
      · rcases List.mem_cons.mp hu' with rfl | hu'
        · exact .inl (orderBooks_runUpdate hstep (.inr hj))
        · exact .inr ⟨u', hu', hj⟩

theorem orderBooks_foldl_applyUnlessNull {i j : Instrument} (hj : j ≠ i)
    (updates : List OrderBookUpdate) :
    (updates.foldl (applyUnlessNull i) m).orderBooks j = m.orderBooks j := by
  induction updates generalizing m with
  | nil => rfl
  | cons u updates ih => exact ih.trans (orderBooks_applyUnlessNull hj u)

/-- **A batch touches one book.** -/
theorem orderBooks_runUpdates {m' : OrderBookManager} {first : OrderBookUpdate}
    {updates : List OrderBookUpdate} (h : m.runUpdates (first :: updates) = .ok m')
    {j : Instrument} (hj : first.instrument ≠ some j) : m'.orderBooks j = m.orderBooks j := by
  rw [runUpdates] at h
  split at h
  · cases h
  · rename_i i m'' hbook
    obtain ⟨hi, -, hother⟩ := getOrCreateOrderBook_eq_ok hbook
    have hji : j ≠ i := fun hji => hj (hji ▸ hi)
    cases h
    rw [orderBooks_foldl_applyUnlessNull hji, hother j hji]

/-- The first element of a batch has an instrument, and the others have that one or none. -/
def OneInstrument : List OrderBookUpdate → Prop
  | [] => True
  | first :: updates => ∃ i, first.instrument = some i ∧ Uniform i updates

/-- A batch for one instrument is its updates one by one. -/
theorem runUpdates_of_oneInstrument (m : OrderBookManager) {updates : List OrderBookUpdate}
    (h : OneInstrument updates) : m.runUpdates updates = updates.foldlM runUpdate m := by
  cases updates with
  | nil => rfl
  | cons first updates =>
    obtain ⟨i, hfirst, hall⟩ := h
    exact runUpdates_eq_foldlM hfirst hall

/-- **A batch does what its updates do one by one**, on every manager, exactly when it is for one
instrument. -/
theorem runUpdates_eq_foldlM_iff (updates : List OrderBookUpdate) :
    (∀ m : OrderBookManager, m.runUpdates updates = updates.foldlM runUpdate m ∧
        m.runUpdates updates ≠ .error .nullInstrument) ↔ OneInstrument updates := by
  constructor
  · intro h
    cases updates with
    | nil => trivial
    | cons first updates =>
      cases hfirst : first.instrument with
      | none =>
        refine absurd ?_ (h (empty 0)).2
        rw [runUpdates, hfirst]
        rfl
      | some i =>
        refine ⟨i, hfirst, fun u hu => ?_⟩
        by_contra hother
        rw [not_or] at hother
        obtain ⟨j, hj⟩ := Option.ne_none_iff_exists'.mp hother.1
        have hji : j ≠ i := fun hji => hother.2 (hji ▸ hj)
        -- a manager with a book for the first instrument and none for the other
        let book : OrderBook := .fresh (some i) 0 1 1 0 one_pos one_pos (by decide)
        let m : OrderBookManager := (empty 1).emplace i book rfl
        have hbook : m.orderBooks i = some book := Function.update_self ..
        have hnone : m.orderBooks j = none := Function.update_of_ne hji ..
        have hfound : m.getOrCreateOrderBook first.instrument first.price = .ok (i, m) :=
          hfirst ▸ getOrCreateOrderBook_of_some hbook first.price
        have hsingles := (h m).1.symm.trans (runUpdates_of_found hfound)
        refine orderBooks_foldlM_runUpdate hsingles (.inr ⟨u, List.mem_cons_of_mem _ hu, hj⟩) ?_
        rw [orderBooks_foldl_applyUnlessNull hji, hnone]
  · intro h m
    have heq := m.runUpdates_of_oneInstrument h
    refine ⟨heq, ?_⟩
    rw [heq]
    exact foldlM_runUpdate_ne_nullInstrument m updates

/-! ## Every history of a manager -/

/-- A call that changes the books, or how new ones are made. -/
inductive ManagerCall
  | setConfig (depth : ℕ)
  | snapshot (snapshot : OrderBookSnapShot)
  | update (u : OrderBookUpdate)
  | updates (updates : List OrderBookUpdate)

/-- The manager after a call. -/
def call (m : OrderBookManager) : ManagerCall → Except UpdateFailure OrderBookManager
  | .setConfig depth => .ok { m with depth := depth }
  | .snapshot snapshot => m.runSnapshot snapshot
  | .update u => m.runUpdate u
  | .updates updates => m.runUpdates updates

/-- A batch, taken apart. -/
def ManagerCall.singles : ManagerCall → List ManagerCall
  | .updates us => us.map .update
  | c => [c]

/-- A call is no batch for several instruments. -/
def ManagerCall.Ok : ManagerCall → Prop
  | .updates us => OneInstrument us
  | _ => True

theorem foldlM_singles (m : OrderBookManager) {c : ManagerCall} (hc : c.Ok) :
    c.singles.foldlM call m = m.call c := by
  have hsingle : ∀ c : ManagerCall, [c].foldlM call m = m.call c := fun c => by
    rw [List.foldlM_cons]
    cases m.call c <;> rfl
  cases c with
  | setConfig depth => exact hsingle _
  | snapshot snapshot => exact hsingle _
  | update u => exact hsingle _
  | updates updates =>
    rw [ManagerCall.singles, List.foldlM_map]
    exact (m.runUpdates_of_oneInstrument hc).symm

/-- **Every history with batches is a history without them.** -/
theorem foldlM_flatMap_singles (m : OrderBookManager) {calls : List ManagerCall}
    (hcalls : ∀ c ∈ calls, c.Ok) :
    (calls.flatMap ManagerCall.singles).foldlM call m = calls.foldlM call m := by
  induction calls generalizing m with
  | nil => rfl
  | cons c calls ih =>
    obtain ⟨hc, hcalls⟩ := List.forall_mem_cons.mp hcalls
    rw [List.flatMap_cons, List.foldlM_append, foldlM_singles m hc, List.foldlM_cons]
    cases m.call c with
    | error failure => rfl
    | ok m' => exact ih m' hcalls

/-! ## Two batches that go wrong -/

/-- A perpetual with two decimals. -/
def perpetual (symbol : String) : Instrument := .create .binance .perpetual symbol symbol 3 2

/-- A bid of one unit. -/
def bidUpdate (instrument : Option Instrument) (price : ℚ) : OrderBookUpdate :=
  ⟨instrument, .bid, .update, price, 1⟩

theorem perpetual_pos (symbol : String) : 0 < (perpetual symbol).pricePrecision := by
  simp [perpetual, Instrument.create]

/-- A book can be made for a perpetual. -/
theorem getOrCreateOrderBook_perpetual (m : OrderBookManager) (hd : 0 < m.depth)
    (hle : m.depth ≤ maxSize) (symbol : String) (price : ℚ) :
    ∃ m', m.getOrCreateOrderBook (some (perpetual symbol)) price = .ok (perpetual symbol, m') ∧
      m'.depth = m.depth := by
  unfold getOrCreateOrderBook
  split
  · simp_all
  · rename_i i hi
    obtain rfl := Option.some.inj hi
    split
    · exact ⟨m, rfl, rfl⟩
    · split
      · exact ⟨_, rfl, rfl⟩
      · rename_i what hwhat
        rw [OrderBook.createDefault, OrderBook.create, dif_pos hle, dif_pos (perpetual_pos symbol),
          dif_pos hd] at hwhat
        cases hwhat

theorem runUpdate_perpetual (m : OrderBookManager) (hd : 0 < m.depth) (hle : m.depth ≤ maxSize)
    (symbol : String) (price : ℚ) :
    ∃ m', m.runUpdate (bidUpdate (some (perpetual symbol)) price) = .ok m' ∧
      m'.depth = m.depth := by
  obtain ⟨m', hbook, hdepth⟩ := m.getOrCreateOrderBook_perpetual hd hle symbol price
  refine ⟨m'.applyUpdate (perpetual symbol) (bidUpdate (some (perpetual symbol)) price), ?_, hdepth⟩
  rw [runUpdate]
  simp only [bidUpdate, hbook]

/-- **The second instrument gets no book from a batch**, and a null instrument in front is read. -/
theorem mixedBatch_not_singles :
    (∃ batch singles,
      (empty 10000).runUpdates [bidUpdate (some (perpetual "BTCUSDT")) 100,
          bidUpdate (some (perpetual "ETHUSDT")) 10] = .ok batch ∧
        [bidUpdate (some (perpetual "BTCUSDT")) 100,
          bidUpdate (some (perpetual "ETHUSDT")) 10].foldlM runUpdate (empty 10000) = .ok singles ∧
        batch.orderBooks (perpetual "ETHUSDT") = none ∧
        singles.orderBooks (perpetual "ETHUSDT") ≠ none) ∧
      (empty 10000).runUpdates [bidUpdate none 100, bidUpdate (some (perpetual "BTCUSDT")) 100] =
        .error .nullInstrument := by
  refine ⟨?_, rfl⟩
  have hle : (empty 10000).depth ≤ maxSize := by decide
  obtain ⟨found, hbook, -⟩ :=
    (empty 10000).getOrCreateOrderBook_perpetual (by decide) hle "BTCUSDT" 100
  obtain ⟨m, hfirst, hdepth⟩ := (empty 10000).runUpdate_perpetual (by decide) hle "BTCUSDT" 100
  obtain ⟨singles, hsecond, -⟩ :=
    m.runUpdate_perpetual (hdepth ▸ by decide) (hdepth ▸ hle) "ETHUSDT" 10
  have hsingles : [bidUpdate (some (perpetual "BTCUSDT")) 100,
      bidUpdate (some (perpetual "ETHUSDT")) 10].foldlM runUpdate (empty 10000) = .ok singles := by
    rw [List.foldlM_cons, hfirst]
    change [bidUpdate (some (perpetual "ETHUSDT")) 10].foldlM runUpdate m = _
    rw [List.foldlM_cons, hsecond]
    rfl
  have hbatch := @runUpdates_of_found _ (bidUpdate (some (perpetual "BTCUSDT")) 100)
    _ _ [bidUpdate (some (perpetual "ETHUSDT")) 10] hbook
  refine ⟨_, singles, hbatch, hsingles, ?_, ?_⟩
  · exact orderBooks_runUpdates hbatch (by decide)
  · exact orderBooks_foldlM_runUpdate hsingles (.inr ⟨_, List.mem_cons_of_mem _ List.mem_cons_self,
      rfl⟩)

end OrderBookManager

end TradingEngine
