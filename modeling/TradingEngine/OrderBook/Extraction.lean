import Mathlib.Data.Set.Card
import TradingEngine.OrderBook.Book
import TradingEngine.OrderBook.SideInvariant

/-!
# OrderBook/Extraction — the best levels of a book, written into a snapshot

`get_order_book_snapshot(levels)` scans the bids from the cached top downwards and the asks from the
cached top upwards, and stops after `levels` positive levels.  The snapshot it writes to has limits
of its own: `max_levels`, which `resize` sets to `levels`, and the length of its two vectors, which
nothing changes.  `getOrderBookSnapshot_extracts` says what is written while the vectors are long
enough, `getOrderBookSnapshot_eq_none` that a longer result is written past their end.
-/

namespace TradingEngine

namespace OrderBookSnapShot

/-! ## Adding levels, on either side -/

variable (s : OrderBookSnapShot)

/-- The levels in use on a side. -/
def sideLevels : OrderBookSideType → List OrderBookLevel
  | .bid => s.bidLevels
  | .ask => s.askLevels

/-- `add_bid` or `add_ask`. -/
def addLevel (t : OrderBookSideType) (l : OrderBookLevel) : Option OrderBookSnapShot :=
  match t with
  | .bid => s.addBid l.price l.quantity
  | .ask => s.addAsk l.price l.quantity

/-- Several of these calls, in order. -/
def addLevels (t : OrderBookSideType) (ls : List OrderBookLevel) : Option OrderBookSnapShot :=
  ls.foldlM (fun s l => s.addLevel t l) s

/-- The levels that `max_levels` leaves room for. -/
def room (t : OrderBookSideType) : ℕ := s.maxLevels - (s.sideLevels t).length

/-- Side `t` of `s'` is that of `s` with some levels behind it; nothing else has changed. -/
structure Filled (t : OrderBookSideType) (added : List OrderBookLevel)
    (s s' : OrderBookSnapShot) : Prop where
  pooled : s'.Pooled
  sideLevels_self : s'.sideLevels t = s.sideLevels t ++ added
  sideLevels_other : ∀ t', t' ≠ t → s'.sideLevels t' = s.sideLevels t'
  maxLevels_eq : s'.maxLevels = s.maxLevels
  instrument_eq : s'.instrument = s.instrument

variable {s} {s' s'' : OrderBookSnapShot} {t : OrderBookSideType} {l : OrderBookLevel}
  {ls : List OrderBookLevel}

theorem length_sideLevels_le (hs : s.Pooled) : (s.sideLevels t).length ≤ capacity := by
  cases t
  · rw [sideLevels, length_bidLevels, ← hs.bids_length]
    exact s.bidsSize_le
  · rw [sideLevels, length_askLevels, ← hs.asks_length]
    exact s.asksSize_le

theorem sideLevels_refresh (t : OrderBookSideType) : s.refresh.sideLevels t = [] := by
  cases t
  · exact bidLevels_refresh _
  · exact askLevels_refresh _

theorem addLevel_full (hs : s.Pooled) (h : s.maxLevels ≤ (s.sideLevels t).length) :
    s.addLevel t l = some s := by
  cases t
  · exact (addBid_spec hs _ _).1 h
  · exact (addAsk_spec hs _ _).1 h

theorem addLevel_out (hs : s.Pooled) (h : (s.sideLevels t).length < s.maxLevels)
    (hfull : capacity ≤ (s.sideLevels t).length) : s.addLevel t l = none := by
  cases t
  · exact (addBid_spec hs _ _).2.1 h hfull
  · exact (addAsk_spec hs _ _).2.1 h hfull

theorem addLevel_free (hs : s.Pooled) (h : (s.sideLevels t).length < s.maxLevels)
    (hfree : (s.sideLevels t).length < capacity) :
    ∃ s', s.addLevel t l = some s' ∧ Filled t [l] s s' := by
  cases t
  · obtain ⟨s', hadd, hpooled, hself, hother, hmax, hinstrument⟩ :=
      (addBid_spec hs l.price l.quantity).2.2 h hfree
    refine ⟨s', hadd, hpooled, hself, fun t' ht => ?_, hmax, hinstrument⟩
    cases t'
    · exact absurd rfl ht
    · exact hother
  · obtain ⟨s', hadd, hpooled, hself, hother, hmax, hinstrument⟩ :=
      (addAsk_spec hs l.price l.quantity).2.2 h hfree
    refine ⟨s', hadd, hpooled, hself, fun t' ht => ?_, hmax, hinstrument⟩
    cases t'
    · exact hother
    · exact absurd rfl ht

theorem Filled.refl (hs : s.Pooled) : Filled t [] s s :=
  ⟨hs, (List.append_nil _).symm, fun _ _ => rfl, rfl, rfl⟩

theorem Filled.trans {added : List OrderBookLevel} (h : Filled t ls s s')
    (h' : Filled t added s' s'') : Filled t (ls ++ added) s s'' where
  pooled := h'.pooled
  sideLevels_self := by rw [h'.sideLevels_self, h.sideLevels_self, List.append_assoc]
  sideLevels_other t' ht := (h'.sideLevels_other t' ht).trans (h.sideLevels_other t' ht)
  maxLevels_eq := h'.maxLevels_eq.trans h.maxLevels_eq
  instrument_eq := h'.instrument_eq.trans h.instrument_eq

theorem Filled.room_eq (h : Filled t ls s s') : s'.room t = s.room t - ls.length := by
  rw [room, room, h.maxLevels_eq, h.sideLevels_self, List.length_append]
  omega

@[simp] theorem addLevels_nil : s.addLevels t [] = some s := rfl

theorem addLevels_cons :
    s.addLevels t (l :: ls) = (s.addLevel t l).bind fun s' => s'.addLevels t ls := rfl

/-- A full snapshot takes no more. -/
theorem addLevels_full (hs : s.Pooled) (h : s.maxLevels ≤ (s.sideLevels t).length) :
    s.addLevels t ls = some s := by
  induction ls with
  | nil => rfl
  | cons l ls ih => rw [addLevels_cons, addLevel_full hs h, Option.bind_some, ih]

/-- **Levels are added while `max_levels` leaves room**; if that is more than the vector has, an
entry behind its end is written. -/
theorem addLevels_spec (hs : s.Pooled) :
    ((s.sideLevels t).length + min ls.length (s.room t) ≤ capacity →
        ∃ s', s.addLevels t ls = some s' ∧ Filled t (ls.take (s.room t)) s s') ∧
      (capacity < (s.sideLevels t).length + min ls.length (s.room t) →
        s.addLevels t ls = none) := by
  induction ls generalizing s with
  | nil =>
    have hle := length_sideLevels_le (t := t) hs
    refine ⟨fun _ => ⟨s, rfl, ?_⟩, fun h => ?_⟩
    · rw [List.take_nil]
      exact .refl hs
    · rw [List.length_nil, Nat.zero_min] at h
      omega
  | cons l ls ih =>
    rw [addLevels_cons, List.length_cons]
    rcases Nat.lt_or_ge (s.sideLevels t).length s.maxLevels with hroom | hfull
    · have hsucc : s.room t = s.maxLevels - (s.sideLevels t).length := rfl
      rcases Nat.lt_or_ge (s.sideLevels t).length capacity with hfree | hout
      · obtain ⟨s', hadd, hfilled⟩ := addLevel_free (l := l) hs hroom hfree
        have hlength := congrArg List.length hfilled.sideLevels_self
        rw [List.length_append, List.length_singleton] at hlength
        have hroom' := hfilled.room_eq
        rw [List.length_singleton] at hroom'
        obtain ⟨hsome, hnone⟩ := ih hfilled.pooled
        rw [hadd, Option.bind_some]
        refine ⟨fun h => ?_, fun h => hnone (by omega)⟩
        obtain ⟨s'', hadds, hfilled'⟩ := hsome (by omega)
        refine ⟨s'', hadds, ?_⟩
        have htake : (l :: ls).take (s.room t) = [l] ++ ls.take (s'.room t) := by
          obtain ⟨n, hn⟩ := Nat.exists_eq_succ_of_ne_zero (n := s.room t) (by omega)
          rw [hroom', hn, List.take_succ_cons]
          rfl
        rw [htake]
        exact hfilled.trans hfilled'
      · rw [addLevel_out hs hroom hout]
        exact ⟨fun h => by omega, fun _ => rfl⟩
    · have hroom : s.room t = 0 := Nat.sub_eq_zero_of_le hfull
      rw [addLevel_full hs hfull, Option.bind_some, addLevels_full hs hfull, hroom]
      have hle := length_sideLevels_le (t := t) hs
      exact ⟨fun _ => ⟨s, rfl, .refl hs⟩, fun h => by omega⟩

theorem filled_of_addLevels (hs : s.Pooled) (h : s.addLevels t ls = some s') :
    Filled t (ls.take (s.room t)) s s' := by
  obtain ⟨hsome, hnone⟩ := @addLevels_spec s t ls hs
  rcases Nat.lt_or_ge capacity ((s.sideLevels t).length + min ls.length (s.room t)) with hout | hin
  · rw [hnone hout] at h
    cases h
  · obtain ⟨s'', hadd, hfilled⟩ := hsome hin
    rw [hadd] at h
    cases h
    exact hfilled

/-- With a `max_levels` of at most the length of the vectors, no entry behind their end is
written. -/
theorem addLevels_of_maxLevels_le (hs : s.Pooled) (h : s.maxLevels ≤ capacity) :
    ∃ s', s.addLevels t ls = some s' ∧ Filled t (ls.take (s.room t)) s s' := by
  have hle := length_sideLevels_le (t := t) hs
  refine (addLevels_spec hs).1 ?_
  rw [room]
  omega

/-- What is done with a snapshot that a level was added to. -/
theorem addLevel_bind_congr {f g : OrderBookSnapShot → Option OrderBookSnapShot} (hs : s.Pooled)
    (h : (s.sideLevels t).length < s.maxLevels)
    (hfg : ∀ s', Filled t [l] s s' → f s' = g s') :
    (s.addLevel t l).bind f = (s.addLevel t l).bind g := by
  rcases Nat.lt_or_ge (s.sideLevels t).length capacity with hfree | hout
  · obtain ⟨s', hadd, hfilled⟩ := addLevel_free (l := l) hs h hfree
    rw [hadd, Option.bind_some, Option.bind_some, hfg s' hfilled]
  · rw [addLevel_out hs h hout]
    rfl

theorem addLevels_bind_congr {f g : OrderBookSnapShot → Option OrderBookSnapShot} (hs : s.Pooled)
    (hfg : ∀ s', Filled t (ls.take (s.room t)) s s' → f s' = g s') :
    (s.addLevels t ls).bind f = (s.addLevels t ls).bind g := by
  cases hadd : s.addLevels t ls with
  | none => rfl
  | some s' => exact hfg s' (filled_of_addLevels hs hadd)

end OrderBookSnapShot

/-! ## The scans -/

namespace OrderBookSide

variable (s : OrderBookSide)

/-- The level at an index, as a snapshot holds it. -/
def levelAt (index : ℕ) : OrderBookLevel := ⟨s.indexToPrice index, s.quantityAtIndex index⟩

/-- The positive levels among `count` indices from `start` on. -/
def positiveIndices (start count : ℕ) : List ℕ :=
  (List.range' start count).filter fun i => 0 < s.quantityAtIndex i

/-- The positive levels of a side, the best one first. -/
def bestLevels : List OrderBookLevel :=
  match s.side with
  | .bid => (s.positiveIndices 0 s.depth).reverse.map s.levelAt
  | .ask => (s.positiveIndices 0 s.depth).map s.levelAt

/-- The positive levels that the scan of a bid side meets. -/
def scannedBids : List OrderBookLevel :=
  if s.hasTop then (s.positiveIndices 0 (s.topIndex + 1)).reverse.map s.levelAt else []

/-- The positive levels that the scan of an ask side meets. -/
def scannedAsks : List OrderBookLevel :=
  if s.hasTop then (s.positiveIndices s.topIndex (s.depth - s.topIndex)).map s.levelAt else []

end OrderBookSide

namespace OrderBook

/-- The loop over the bids: indices below `i`, downwards. -/
def scanBids (bids : OrderBookSide) (levels : ℕ) :
    ℕ → ℕ → OrderBookSnapShot → Option OrderBookSnapShot
  | 0, _, snapshot => some snapshot
  | i + 1, bidCount, snapshot =>
    if bidCount < levels then
      if bids.quantityAtIndex i ≤ 0 then scanBids bids levels i bidCount snapshot
      else
        (snapshot.addBid (bids.indexToPrice i) (bids.quantityAtIndex i)).bind
          (scanBids bids levels i (bidCount + 1))
    else some snapshot

/-- The loop over the asks: the last `n` indices, upwards. -/
def scanAsks (asks : OrderBookSide) (levels : ℕ) :
    ℕ → ℕ → OrderBookSnapShot → Option OrderBookSnapShot
  | 0, _, snapshot => some snapshot
  | n + 1, askCount, snapshot =>
    if askCount < levels then
      let index := asks.depth - (n + 1)
      if asks.quantityAtIndex index ≤ 0 then scanAsks asks levels n askCount snapshot
      else
        (snapshot.addAsk (asks.indexToPrice index) (asks.quantityAtIndex index)).bind
          (scanAsks asks levels n (askCount + 1))
    else some snapshot

variable (b : OrderBook)

/-- The first lines of `get_order_book_snapshot`. -/
def emptied (levels : ℕ) (acquired : OrderBookSnapShot) : OrderBookSnapShot :=
  ((acquired.updateInstrument b.instrument).resize levels).refresh

/-- `get_order_book_snapshot(levels)`, with the object that `acquire` has handed out; `none` if an
entry behind the end of a vector is written. -/
def getOrderBookSnapshot (levels : ℕ) (acquired : OrderBookSnapShot) : Option OrderBookSnapShot :=
  (if b.bids.hasTop then
      scanBids b.bids levels (b.bids.topIndex + 1) 0 (b.emptied levels acquired)
    else some (b.emptied levels acquired)).bind fun snapshot =>
    if b.asks.hasTop then scanAsks b.asks levels (b.asks.depth - b.asks.topIndex) 0 snapshot
    else some snapshot

end OrderBook

/-! ## What the scans write -/

namespace OrderBookSide

variable {s : OrderBookSide}

theorem mem_positiveIndices {start count i : ℕ} :
    i ∈ s.positiveIndices start count ↔ (start ≤ i ∧ i < start + count) ∧ i ∈ s.filled := by
  rw [positiveIndices, List.mem_filter, List.mem_range'_1, decide_eq_true_iff]
  exact Iff.rfl

theorem positiveIndices_split (start m n : ℕ) :
    s.positiveIndices start (m + n) =
      s.positiveIndices start m ++ s.positiveIndices (start + m) n := by
  simp only [positiveIndices]
  rw [← List.filter_append, List.range'_append_1]

theorem positiveIndices_eq_nil {start count : ℕ}
    (h : ∀ i, start ≤ i → i < start + count → i ∉ s.filled) :
    s.positiveIndices start count = [] := by
  rw [List.eq_nil_iff_forall_not_mem]
  intro i hi
  obtain ⟨⟨hlow, hhigh⟩, hfilled⟩ := mem_positiveIndices.mp hi
  exact h i hlow hhigh hfilled

theorem positiveIndices_one (i : ℕ) :
    s.positiveIndices i 1 = if s.quantityAtIndex i ≤ 0 then [] else [i] := by
  by_cases h : s.quantityAtIndex i ≤ 0
  · simp [positiveIndices, h, not_lt.mpr h]
  · simp [positiveIndices, h, not_le.mp h]

theorem positiveIndices_of_empty (h : s.filled = ∅) (start count : ℕ) :
    s.positiveIndices start count = [] :=
  positiveIndices_eq_nil fun i _ _ hi => by simp [h] at hi

theorem hasTop_eq_false_iff (hs : s.Inv) : s.hasTop = false ↔ s.filled = ∅ := by
  rw [hasTop, decide_eq_false_iff_not, not_not, topIndex_eq_invalidIndex_iff hs]

/-- A side with a top has it at the best filled index. -/
theorem isBest_of_hasTop (hs : s.Inv) (h : s.hasTop = true) : IsBest s.side s.filled s.topIndex := by
  refine isBest_topIndex hs ?_
  rw [Set.nonempty_iff_ne_empty, Ne, ← hasTop_eq_false_iff hs, h]
  decide

theorem topIndex_lt_depth (hs : s.Inv) (h : s.hasTop = true) : s.topIndex < s.depth :=
  lt_depth_of_mem_filled (isBest_of_hasTop hs h).mem

/-- Nothing positive lies behind the cached top. -/
theorem scannedBids_eq (hs : s.Inv) (hside : s.side = .bid) : s.scannedBids = s.bestLevels := by
  rw [bestLevels, hside, eq_comm, scannedBids]
  dsimp only
  cases htop : s.hasTop
  · rw [positiveIndices_of_empty ((hasTop_eq_false_iff hs).mp htop)]
    rfl
  · have hbest := isBest_of_hasTop hs htop
    rw [hside] at hbest
    have hlt := topIndex_lt_depth hs htop
    obtain ⟨n, hn⟩ := Nat.exists_eq_add_of_le (Nat.succ_le_of_lt hlt)
    rw [if_pos rfl, hn, positiveIndices_split, Nat.zero_add,
      @positiveIndices_eq_nil s s.topIndex.succ, List.append_nil]
    intro i hi _ hfilled
    have := hbest.2 hfilled
    omega

/-- …or in front of it. -/
theorem scannedAsks_eq (hs : s.Inv) (hside : s.side = .ask) : s.scannedAsks = s.bestLevels := by
  rw [bestLevels, hside, eq_comm, scannedAsks]
  dsimp only
  cases htop : s.hasTop
  · rw [positiveIndices_of_empty ((hasTop_eq_false_iff hs).mp htop)]
    rfl
  · have hbest := isBest_of_hasTop hs htop
    rw [hside] at hbest
    have hlt := topIndex_lt_depth hs htop
    obtain ⟨n, hn⟩ := Nat.exists_eq_add_of_le hlt.le
    rw [if_pos rfl]
    conv_lhs => rw [hn, positiveIndices_split, Nat.zero_add, @positiveIndices_eq_nil s 0
      s.topIndex (fun i _ hi hfilled => by have := hbest.2 hfilled; omega)]
    rw [hn, Nat.add_sub_cancel_left, List.nil_append]

end OrderBookSide

namespace OrderBook

open OrderBookSide OrderBookSnapShot

variable {b : OrderBook} {levels : ℕ} {snapshot acquired : OrderBookSnapShot}

/-- **The scan of the bids** adds the positive levels below `n`, the highest first. -/
theorem scanBids_eq {bids : OrderBookSide} (n : ℕ) (hs : snapshot.Pooled)
    (hmax : snapshot.maxLevels = levels) :
    scanBids bids levels n (snapshot.sideLevels .bid).length snapshot =
      snapshot.addLevels .bid ((bids.positiveIndices 0 n).reverse.map bids.levelAt) := by
  induction n generalizing snapshot with
  | zero => rfl
  | succ n ih =>
    rw [scanBids, positiveIndices_split, Nat.zero_add, positiveIndices_one]
    by_cases hfull : levels ≤ (snapshot.sideLevels .bid).length
    · rw [if_neg (Nat.not_lt.mpr hfull), addLevels_full hs (hmax ▸ hfull)]
    rw [if_pos (Nat.lt_of_not_le hfull)]
    by_cases hq : bids.quantityAtIndex n ≤ 0
    · rw [if_pos hq, if_pos hq, List.append_nil, ih hs hmax]
    · rw [if_neg hq, if_neg hq, List.reverse_append, List.reverse_singleton, List.map_append,
        List.map_singleton, List.singleton_append, addLevels_cons]
      refine addLevel_bind_congr (t := .bid) (l := bids.levelAt n) hs (by omega) fun s' hfilled => ?_
      have hlength := congrArg List.length hfilled.sideLevels_self
      rw [List.length_append, List.length_singleton] at hlength
      rw [← hlength, ih hfilled.pooled (hfilled.maxLevels_eq.trans hmax)]

/-- **The scan of the asks** adds the last `n` positive levels, the lowest first. -/
theorem scanAsks_eq {asks : OrderBookSide} {n : ℕ} (hn : n ≤ asks.depth) (hs : snapshot.Pooled)
    (hmax : snapshot.maxLevels = levels) :
    scanAsks asks levels n (snapshot.sideLevels .ask).length snapshot =
      snapshot.addLevels .ask ((asks.positiveIndices (asks.depth - n) n).map asks.levelAt) := by
  induction n generalizing snapshot with
  | zero => rfl
  | succ n ih =>
    have hsucc : asks.depth - (n + 1) + 1 = asks.depth - n := by omega
    rw [scanAsks, Nat.add_comm n 1, positiveIndices_split, positiveIndices_one, Nat.add_comm 1 n,
      hsucc]
    by_cases hfull : levels ≤ (snapshot.sideLevels .ask).length
    · rw [if_neg (Nat.not_lt.mpr hfull), addLevels_full hs (hmax ▸ hfull)]
    rw [if_pos (Nat.lt_of_not_le hfull)]
    dsimp only
    by_cases hq : asks.quantityAtIndex (asks.depth - (n + 1)) ≤ 0
    · rw [if_pos hq, if_pos hq, List.nil_append, ih (by omega) hs hmax]
    · rw [if_neg hq, if_neg hq, List.singleton_append, List.map_cons, addLevels_cons]
      refine addLevel_bind_congr (t := .ask) (l := asks.levelAt (asks.depth - (n + 1))) hs
        (by omega) fun s' hfilled => ?_
      have hlength := congrArg List.length hfilled.sideLevels_self
      rw [List.length_append, List.length_singleton] at hlength
      rw [← hlength, ih (by omega) hfilled.pooled (hfilled.maxLevels_eq.trans hmax)]

theorem sideLevels_emptied (t : OrderBookSideType) :
    (b.emptied levels acquired).sideLevels t = [] := sideLevels_refresh t

theorem pooled_emptied (hs : acquired.Pooled) : (b.emptied levels acquired).Pooled :=
  ⟨hs.bids_length, hs.asks_length⟩

/-- **A snapshot is filled with the levels that the scans meet.** -/
theorem getOrderBookSnapshot_eq (hs : acquired.Pooled) :
    b.getOrderBookSnapshot levels acquired =
      ((b.emptied levels acquired).addLevels .bid b.bids.scannedBids).bind fun snapshot =>
        snapshot.addLevels .ask b.asks.scannedAsks := by
  have hstart := @pooled_emptied b levels acquired hs
  have hbids : (if b.bids.hasTop then
        scanBids b.bids levels (b.bids.topIndex + 1) 0 (b.emptied levels acquired)
      else some (b.emptied levels acquired)) =
      (b.emptied levels acquired).addLevels .bid b.bids.scannedBids := by
    rw [scannedBids]
    split
    · have hscan := @scanBids_eq _ _ b.bids (b.bids.topIndex + 1) hstart rfl
      rwa [sideLevels_emptied] at hscan
    · rfl
  rw [getOrderBookSnapshot, hbids]
  refine addLevels_bind_congr hstart fun s' hfilled => ?_
  have hnil : s'.sideLevels .ask = [] :=
    (hfilled.sideLevels_other .ask (by decide)).trans (sideLevels_emptied .ask)
  have hscan := @scanAsks_eq _ _ b.asks (b.asks.depth - b.asks.topIndex)
    (Nat.sub_le _ _) hfilled.pooled hfilled.maxLevels_eq
  rw [hnil] at hscan
  rw [scannedAsks]
  split
  · rcases Nat.le_total b.asks.topIndex b.asks.depth with hle | hle
    · rwa [Nat.sub_sub_self hle] at hscan
    · rw [Nat.sub_eq_zero_of_le hle]
      rfl
  · rfl

/-- Whatever the book, the snapshot has room for `levels`. -/
theorem getOrderBookSnapshot_pooled {snapshot : OrderBookSnapShot} (hs : acquired.Pooled)
    (h : b.getOrderBookSnapshot levels acquired = some snapshot) :
    snapshot.Pooled ∧ snapshot.maxLevels = levels := by
  rw [getOrderBookSnapshot_eq hs] at h
  obtain ⟨s', hbids, hasks⟩ := Option.bind_eq_some_iff.mp h
  have hfilled := filled_of_addLevels (pooled_emptied hs) hbids
  have hfilled' := filled_of_addLevels hfilled.pooled hasks
  exact ⟨hfilled'.pooled, hfilled'.maxLevels_eq.trans hfilled.maxLevels_eq⟩

/-- A call with at most as many levels as the vectors have writes inside them. -/
theorem getOrderBookSnapshot_of_le (hs : acquired.Pooled) (h : levels ≤ capacity) :
    ∃ snapshot, b.getOrderBookSnapshot levels acquired = some snapshot := by
  obtain ⟨s', hbids, hfilled⟩ := @addLevels_of_maxLevels_le _ .bid b.bids.scannedBids
    (@pooled_emptied b levels acquired hs) h
  obtain ⟨s'', hasks, -⟩ := @addLevels_of_maxLevels_le _ .ask b.asks.scannedAsks
    hfilled.pooled (hfilled.maxLevels_eq.trans_le h)
  rw [getOrderBookSnapshot_eq hs, hbids, Option.bind_some]
  exact ⟨s'', hasks⟩

end OrderBook

/-! ## The best levels -/

namespace OrderBookSide

variable {s : OrderBookSide} {levels : ℕ} {l : OrderBookLevel}

/-- **The best `levels` positive levels of a side**: as many as there are, in strict order with the
best one first, each with the quantity that the side holds, and none of the others improves on one
of them. -/
structure Extracts (s : OrderBookSide) (levels : ℕ) (ls : List OrderBookLevel) : Prop where
  length_eq : ls.length = min levels s.filled.ncard
  sorted : ls.Pairwise fun l l' => Better s.side l.price l'.price
  held : ∀ l ∈ ls, ∃ i ∈ s.filled, l = s.levelAt i
  best : ∀ i ∈ s.filled, s.levelAt i ∉ ls → ∀ l ∈ ls, Better s.side l.price (s.indexToPrice i)

theorem mem_bestLevels : l ∈ s.bestLevels ↔ ∃ i ∈ s.filled, s.levelAt i = l := by
  have hmem : ∀ i, i ∈ s.positiveIndices 0 s.depth ↔ i ∈ s.filled := fun i => by
    rw [mem_positiveIndices, and_iff_right_of_imp]
    exact fun hi => ⟨Nat.zero_le i, by rw [Nat.zero_add]; exact lt_depth_of_mem_filled hi⟩
  rw [bestLevels]
  split
  · simp only [List.mem_map, List.mem_reverse, hmem]
  · simp only [List.mem_map, hmem]

theorem nodup_positiveIndices (start count : ℕ) : (s.positiveIndices start count).Nodup :=
  (List.nodup_range' ..).filter _

theorem length_bestLevels : s.bestLevels.length = s.filled.ncard := by
  have hset : s.filled = ((s.positiveIndices 0 s.depth).toFinset : Set ℕ) := by
    ext i
    rw [List.coe_toFinset, Set.mem_ofPred_eq, mem_positiveIndices, iff_and_self]
    exact fun hi => ⟨Nat.zero_le i, by rw [Nat.zero_add]; exact lt_depth_of_mem_filled hi⟩
  rw [hset, Set.ncard_coe_finset, List.toFinset_card_of_nodup (nodup_positiveIndices _ _),
    bestLevels]
  split
  · rw [List.length_map, List.length_reverse]
  · rw [List.length_map]

theorem sorted_bestLevels (s : OrderBookSide) :
    s.bestLevels.Pairwise fun l l' => Better s.side l.price l'.price := by
  have hlt : (s.positiveIndices 0 s.depth).Pairwise (· < ·) := (List.pairwise_lt_range' ..).filter _
  rw [bestLevels]
  cases hside : s.side
  · rw [List.pairwise_map, List.pairwise_reverse]
    exact hlt.imp fun h => (s.indexToPrice_lt_iff _ _).mpr h
  · rw [List.pairwise_map]
    exact hlt.imp fun h => (s.indexToPrice_lt_iff _ _).mpr h

/-- **The first `levels` of them** are the best ones. -/
theorem extracts_take (s : OrderBookSide) (levels : ℕ) :
    s.Extracts levels (s.bestLevels.take levels) where
  length_eq := by rw [List.length_take, length_bestLevels]
  sorted := s.sorted_bestLevels.sublist (List.take_sublist _ _)
  held l hl := by
    obtain ⟨i, hi, heq⟩ := mem_bestLevels.mp (List.mem_of_mem_take hl)
    exact ⟨i, hi, heq.symm⟩
  best i hi hnot l hl := by
    have hsorted := s.sorted_bestLevels
    have hmem : s.levelAt i ∈ s.bestLevels := mem_bestLevels.mpr ⟨i, hi, rfl⟩
    rw [← List.take_append_drop levels s.bestLevels] at hsorted hmem
    exact (List.pairwise_append.mp hsorted).2.2 l hl _ ((List.mem_append.mp hmem).resolve_left hnot)

end OrderBookSide

namespace OrderBook

open OrderBookSide OrderBookSnapShot

variable {b : OrderBook} {levels : ℕ} {acquired : OrderBookSnapShot}

/-- The levels that a call copies fit into the vectors. -/
def Fits (b : OrderBook) (levels : ℕ) : Prop :=
  ∀ t, min levels (b.getSide t).filled.ncard ≤ capacity

/-- The bids, written into an empty snapshot. -/
theorem addBids_spec (hs : acquired.Pooled) :
    (min levels b.bids.filled.ncard ≤ capacity →
        ∃ s', (b.emptied levels acquired).addLevels .bid b.bids.bestLevels = some s' ∧
          Filled .bid (b.bids.bestLevels.take levels) (b.emptied levels acquired) s') ∧
      (capacity < min levels b.bids.filled.ncard →
        (b.emptied levels acquired).addLevels .bid b.bids.bestLevels = none) := by
  have hspec := @addLevels_spec _ .bid b.bids.bestLevels
    (@pooled_emptied b levels acquired hs)
  have hroom : (b.emptied levels acquired).room .bid = levels := by
    rw [room, sideLevels_emptied]
    rfl
  rwa [hroom, sideLevels_emptied, List.length_nil, Nat.zero_add, length_bestLevels, Nat.min_comm]
    at hspec

/-- The asks, written behind the bids. -/
theorem addAsks_spec {s' : OrderBookSnapShot} {added : List OrderBookLevel}
    (h : Filled .bid added (b.emptied levels acquired) s') :
    (min levels b.asks.filled.ncard ≤ capacity →
        ∃ s'', s'.addLevels .ask b.asks.bestLevels = some s'' ∧
          Filled .ask (b.asks.bestLevels.take levels) s' s'') ∧
      (capacity < min levels b.asks.filled.ncard →
        s'.addLevels .ask b.asks.bestLevels = none) := by
  have hnil : s'.sideLevels .ask = [] :=
    (h.sideLevels_other .ask (by decide)).trans (sideLevels_emptied .ask)
  have hspec := @addLevels_spec _ .ask b.asks.bestLevels h.pooled
  have hroom : s'.room .ask = levels := by
    rw [room, hnil, h.maxLevels_eq]
    rfl
  rwa [hroom, hnil, List.length_nil, Nat.zero_add, length_bestLevels, Nat.min_comm] at hspec

/-- **Levels that fit are copied**: the best `levels` of either side. -/
theorem getOrderBookSnapshot_extracts (hinv : ∀ t, (b.getSide t).Inv) (hs : acquired.Pooled)
    (hfits : b.Fits levels) :
    ∃ snapshot, b.getOrderBookSnapshot levels acquired = some snapshot ∧ snapshot.Pooled ∧
      snapshot.instrument = b.instrument ∧ snapshot.maxLevels = levels ∧
      ∀ t, snapshot.sideLevels t = (b.getSide t).bestLevels.take levels := by
  rw [getOrderBookSnapshot_eq hs, scannedBids_eq (s := b.bids) (hinv .bid) b.bids_side,
    scannedAsks_eq (s := b.asks) (hinv .ask) b.asks_side]
  obtain ⟨s', hbids, hfilled⟩ := (addBids_spec hs).1 (hfits .bid)
  obtain ⟨s'', hasks, hfilled'⟩ := (addAsks_spec hfilled).1 (hfits .ask)
  rw [hbids, Option.bind_some]
  refine ⟨s'', hasks, hfilled'.pooled, ?_, ?_, fun t => ?_⟩
  · exact hfilled'.instrument_eq.trans hfilled.instrument_eq
  · exact hfilled'.maxLevels_eq.trans hfilled.maxLevels_eq
  · cases t
    · rw [hfilled'.sideLevels_other .bid (by decide), hfilled.sideLevels_self, sideLevels_emptied]
      rfl
    · rw [hfilled'.sideLevels_self, hfilled.sideLevels_other .ask (by decide), sideLevels_emptied]
      rfl

/-- **Levels that do not fit** are written past the end of a vector. -/
theorem getOrderBookSnapshot_eq_none (hinv : ∀ t, (b.getSide t).Inv) (hs : acquired.Pooled)
    (hfits : ¬ b.Fits levels) : b.getOrderBookSnapshot levels acquired = none := by
  rw [getOrderBookSnapshot_eq hs, scannedBids_eq (s := b.bids) (hinv .bid) b.bids_side,
    scannedAsks_eq (s := b.asks) (hinv .ask) b.asks_side]
  by_cases hbid : min levels b.bids.filled.ncard ≤ capacity
  · obtain ⟨s', hbids, hfilled⟩ := (addBids_spec hs).1 hbid
    have hask : capacity < min levels b.asks.filled.ncard := by
      refine Nat.lt_of_not_le fun hask => hfits fun t => ?_
      cases t
      · exact hbid
      · exact hask
    rw [hbids, Option.bind_some, (addAsks_spec hfilled).2 hask]
  · rw [(addBids_spec hs).2 (Nat.lt_of_not_le hbid)]
    rfl

end OrderBook

end TradingEngine
