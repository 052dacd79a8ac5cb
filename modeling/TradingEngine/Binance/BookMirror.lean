import TradingEngine.Binance.DepthSafety
import TradingEngine.OrderBook.Refinement

/-!
# Binance/BookMirror — the local book shows what the exchange has

The exchange has a book for each update id.  A depth message tells the quantities at its last id,
and leaves out only prices at which nothing has changed since the message before; a response tells
quantities at its id.  If the updates that reach the local book are in order, then behind each of
them every quantity the local book shows is that of the exchange at the id of the update: the window
may hide a level, but what is shown is neither old nor made up.
-/

namespace TradingEngine

open Grid

/-! ## A windowed price map that shows given quantities -/

namespace WindowBook

variable {P Q : Type*} [Zero Q] {w : WindowShape P} {a : WindowBook P Q}
  {t t' : OrderBookSideType} {p p' : P} {q v : Q}

/-- No level lies outside the window. -/
def Windowed (w : WindowShape P) (a : WindowBook P Q) : Prop :=
  ∀ t p, a.levels t p ≠ 0 → w.inWindow a.base p

/-- The quantity at a price is `v`, if there is one. -/
def Shows (a : WindowBook P Q) (t : OrderBookSideType) (p : P) (v : Q) : Prop :=
  a.levels t p = 0 ∨ a.levels t p = v

theorem Windowed.write (h : a.Windowed w) (t : OrderBookSideType) (p : P) (q : Q) :
    (a.write w t p q).Windowed w := by
  intro t' p' hne
  rw [write_base]
  by_contra hout
  refine hne ?_
  by_cases heq : t' = t ∧ p' = p
  · obtain ⟨rfl, rfl⟩ := heq
    have hzero : a.levels t' p' = 0 := by_contra fun hlevel => hout (h t' p' hlevel)
    rw [write_apply_of_not_inWindow hout hzero, hzero]
  · rw [write_apply_of_ne heq]
    exact by_contra fun hlevel => hout (h t' p' hlevel)

theorem Windowed.write_shows (h : a.Windowed w) : (a.write w t p q).Shows t p q := by
  by_cases hin : w.inWindow a.base p
  · exact .inr (write_apply_self hin q)
  · have hzero : a.levels t p = 0 := by_contra fun hlevel => hin (h t p hlevel)
    exact .inl ((write_apply_of_not_inWindow hin hzero q t p).trans hzero)

theorem Shows.write_of_ne (h : a.Shows t' p' v) (hne : ¬ (t' = t ∧ p' = p)) :
    (a.write w t p q).Shows t' p' v := by
  rwa [Shows, write_apply_of_ne hne]

theorem Windowed.moveTo (p : P) : (a.moveTo w p).Windowed w := by
  intro t p' hne
  by_contra hout
  exact hne (moveTo_apply_of_not_inWindow hout t)

theorem Shows.moveTo (h : a.Shows t p' v) (p : P) : (a.moveTo w p).Shows t p' v := by
  by_cases hin : w.inWindow p p'
  · rwa [Shows, moveTo_apply_of_inWindow hin]
  · exact .inl (moveTo_apply_of_not_inWindow hin t)

variable [LinearOrder P]

theorem Windowed.rebase (h : a.Windowed w) : (a.rebase w).Windowed w := by
  rw [WindowBook.rebase]
  split_ifs
  · exact Windowed.moveTo _
  · exact h

theorem Shows.rebase (h : a.Shows t p v) : (a.rebase w).Shows t p v := by
  rw [WindowBook.rebase]
  split_ifs
  · exact h.moveTo _
  · exact h

/-! ## The calls -/

end WindowBook

/-- The quantity that an update leaves at its price. -/
def OrderBookUpdate.left (u : OrderBookUpdate) : ℚ :=
  match u.type with
  | .add | .update => u.quantity
  | .remove => 0

namespace WindowBook

variable {w : WindowShape ℚ} {a : WindowBook ℚ ℚ} {t : OrderBookSideType} {p : ℚ}

theorem call_update (a : WindowBook ℚ ℚ) (u : OrderBookUpdate) :
    a.call w (.update u) = (a.write w u.side u.price u.left).rebase w := by
  rw [call, OrderBookUpdate.left]
  cases u.type <;> rfl

theorem Windowed.writeAll (h : a.Windowed w) (t : OrderBookSideType)
    (levels : List OrderBookLevel) : (a.writeAll w t levels).Windowed w := by
  induction levels generalizing a with
  | nil => exact h
  | cons l levels ih => exact ih (h.write t l.price l.quantity)

/-- Quantities that are written show, and so does what showed before. -/
theorem Windowed.shows_writeAll (h : a.Windowed w) {v : OrderBookSideType → ℚ → ℚ}
    (hshows : ∀ t p, a.Shows t p (v t p)) {levels : List OrderBookLevel}
    (hlevels : ∀ l ∈ levels, v t l.price = l.quantity) (t' : OrderBookSideType) (p : ℚ) :
    (a.writeAll w t levels).Shows t' p (v t' p) := by
  induction levels generalizing a with
  | nil => exact hshows t' p
  | cons l levels ih =>
    obtain ⟨hl, htail⟩ := List.forall_mem_cons.mp hlevels
    refine ih (h.write t l.price l.quantity) (fun s r => ?_) htail
    by_cases heq : s = t ∧ r = l.price
    · obtain ⟨rfl, rfl⟩ := heq
      exact hl ▸ h.write_shows
    · exact (hshows s r).write_of_ne heq

theorem windowed_clear (a : WindowBook ℚ ℚ) : a.clear.Windowed w := fun _ _ hne => absurd rfl hne

/-- **Every call keeps the levels inside the window.** -/
theorem Windowed.call (h : a.Windowed w) (c : BookCall) : (a.call w c).Windowed w := by
  cases c with
  | update u =>
    rw [call_update]
    exact (h.write _ _ _).rebase
  | snapshot s => exact (((windowed_clear a).writeAll _ _).writeAll _ _).rebase
  | reset => exact windowed_clear a

/-- **A snapshot** of the quantities `v` leaves a book that shows them. -/
theorem shows_snapshot {v : OrderBookSideType → ℚ → ℚ} {s : OrderBookSnapShot}
    (hbids : ∀ l ∈ s.bidLevels, v .bid l.price = l.quantity)
    (hasks : ∀ l ∈ s.askLevels, v .ask l.price = l.quantity) (t : OrderBookSideType) (p : ℚ) :
    (a.call w (.snapshot s)).Shows t p (v t p) := by
  have hcleared : ∀ t p, a.clear.Shows t p (v t p) := fun _ _ => .inl rfl
  have hbid := (windowed_clear (w := w) a).shows_writeAll hcleared hbids
  exact (((windowed_clear a).writeAll _ _).shows_writeAll hbid hasks t p).rebase

/-- **A list of updates** to the quantities `v` leaves a book that shows them, if all others showed
them before. -/
theorem Windowed.shows_exec (h : a.Windowed w) {v : OrderBookSideType → ℚ → ℚ}
    {updates : List OrderBookUpdate} (hupdates : ∀ u ∈ updates, v u.side u.price = u.left)
    (hshows : ∀ t p, (∀ u ∈ updates, ¬ (t = u.side ∧ p = u.price)) → a.Shows t p (v t p))
    (t : OrderBookSideType) (p : ℚ) :
    (Run.exec (WindowBook.call w) a (updates.map .update)).Shows t p (v t p) := by
  induction updates generalizing a with
  | nil => exact hshows t p (List.forall_mem_nil _)
  | cons u updates ih =>
    obtain ⟨hu, htail⟩ := List.forall_mem_cons.mp hupdates
    refine ih (h.call (.update u)) htail fun s r hrest => ?_
    rw [call_update]
    by_cases heq : s = u.side ∧ r = u.price
    · obtain ⟨rfl, rfl⟩ := heq
      rw [hu]
      exact h.write_shows.rebase
    · refine ((hshows s r fun u' hu' => ?_).write_of_ne heq).rebase
      rcases List.mem_cons.mp hu' with rfl | hmem
      · exact heq
      · exact hrest u' hmem

end WindowBook

/-! ## The exchange -/

/-- The levels of one side. -/
def DepthUpdate.levels (d : DepthUpdate) : OrderBookSideType → List Level
  | .bid => d.bids
  | .ask => d.asks

def DepthResponse.levels (r : DepthResponse) : OrderBookSideType → List Level
  | .bid => r.bids
  | .ask => r.asks

/-- The book of an exchange: the quantity at each price of each side, for each update id. -/
abbrev ExchangeBook := ℕ → OrderBookSideType → ℚ → ℚ

namespace ExchangeBook

variable (x : ExchangeBook) (origin tick : ℚ)

/-- The levels tell the quantities at an id; prices lie on the grid. -/
def Tells (n : ℕ) (t : OrderBookSideType) (levels : List Level) : Prop :=
  ∀ l ∈ levels, x n t l.1 = l.2 ∧ OnGrid origin tick l.1 ∧ 0 ≤ l.2

/-- A message tells the quantities at its last id, and leaves out only prices at which nothing has
changed since the last id of the message before it. -/
structure Describes (d : DepthUpdate) : Prop where
  ordered : d.pu ≤ d.U ∧ d.U ≤ d.u
  tells : ∀ t, x.Tells origin tick d.u t (d.levels t)
  quiet : ∀ t p, (∀ l ∈ d.levels t, l.1 ≠ p) → ∀ n, d.pu ≤ n → n ≤ d.u → x n t p = x d.u t p

/-- What the exchange sends is true. -/
def Feeds : DepthEvent → Prop
  | .message d => x.Describes origin tick d
  | .response _ r => ∀ t, x.Tells origin tick r.lastUpdateId t (r.levels t)
  | .reFetch => True

/-- The same of what is published. -/
def Truthful : DepthEffect → Prop
  | .applyUpdate d => x.Describes origin tick d
  | .publishSnapshot r => ∀ t, x.Tells origin tick r.lastUpdateId t (r.levels t)
  | .sendRequest | .postReFetch | .restartWebsocket => True

/-- The quantity at the id that the local book stands at: that of the last update, or else of the
snapshot; before the first snapshot it is empty. -/
def seenBy (m : StreamMonitor) (t : OrderBookSideType) (p : ℚ) : ℚ :=
  (m.last.or m.snapshot).elim 0 fun n => x n t p

end ExchangeBook

namespace OrderBookUpdate

theorem left_ofLevel (i : Option Instrument) (t : OrderBookSideType) (l : Level) :
    (ofLevel i t l).left = l.2 := by
  rw [ofLevel, left]
  by_cases hzero : l.2 = 0
  · simp [hzero]
  · simp [hzero]

end OrderBookUpdate

theorem DepthUpdate.mem_updates {d : DepthUpdate} {i : Option Instrument} {u : OrderBookUpdate} :
    u ∈ d.updates i ↔ ∃ t, ∃ l ∈ d.levels t, OrderBookUpdate.ofLevel i t l = u := by
  simp only [updates, List.mem_append, List.mem_map]
  constructor
  · rintro (⟨l, hl, rfl⟩ | ⟨l, hl, rfl⟩)
    · exact ⟨.ask, l, hl, rfl⟩
    · exact ⟨.bid, l, hl, rfl⟩
  · rintro ⟨t, l, hl, rfl⟩
    cases t
    · exact .inr ⟨l, hl, rfl⟩
    · exact .inl ⟨l, hl, rfl⟩

/-! ## One effect -/

/-- The local book shows what the exchange has. -/
structure Mirrors (x : ExchangeBook) (origin tick : ℚ) (depth : ℕ) (delta : ℚ) (m : StreamMonitor)
    (b : OrderBook) (a : WindowBook ℚ ℚ) : Prop where
  refines : Refines origin tick depth delta b a
  shows : ∀ t p, a.Shows t p (x.seenBy m t p)

namespace Mirrors

variable {x : ExchangeBook} {origin tick : ℚ} {depth : ℕ} {delta : ℚ} {m : StreamMonitor}
  {b : OrderBook} {a : WindowBook ℚ ℚ} {maxLevels : ℕ}

theorem windowed (h : Mirrors x origin tick depth delta m b a) :
    a.Windowed (windowShape tick depth delta) := fun t p hne => (h.refines.level_ok t p hne).2

/-- An update in order begins at or before the id the book stands at, and ends at or behind it. -/
theorem exists_version {d : DepthUpdate} (horder : m.InOrder (.applyUpdate d))
    (hd : x.Describes origin tick d) :
    ∃ n, m.last.or m.snapshot = some n ∧ d.pu ≤ n ∧ n ≤ d.u := by
  obtain ⟨⟨hpu, hU⟩, -, -⟩ := hd
  obtain ⟨snapshot, last⟩ := m
  rcases last with - | u
  · rcases snapshot with - | l
    · exact horder.elim
    · exact ⟨l, rfl, hpu.trans horder.1, horder.2⟩
  · have hchain : d.pu = u := horder
    exact ⟨u, rfl, hchain.le, hchain ▸ hpu.trans hU⟩

/-- **An update in order.** -/
theorem applyUpdate (h : Mirrors x origin tick depth delta m b a) {d : DepthUpdate}
    (horder : m.InOrder (.applyUpdate d)) (hd : x.Describes origin tick d) :
    ∃ a', Mirrors x origin tick depth delta (m.see (.applyUpdate d))
      (DepthEffect.publish maxLevels b (.applyUpdate d)) a' := by
  obtain ⟨n, hn, hpu, hu⟩ := exists_version horder hd
  have hok : ∀ c ∈ (d.updates b.instrument).map BookCall.update, c.Ok origin tick := by
    intro c hc
    obtain ⟨u, hu, rfl⟩ := List.mem_map.mp hc
    obtain ⟨t, l, hl, rfl⟩ := DepthUpdate.mem_updates.mp hu
    exact (hd.tells t l hl).2
  have hpublish : DepthEffect.publish maxLevels b (.applyUpdate d) =
      Run.exec OrderBook.call b ((d.updates b.instrument).map .update) := by
    rw [Run.exec, List.foldl_map]
    rfl
  refine ⟨_, hpublish ▸ h.refines.exec hok, fun t p => ?_⟩
  refine h.windowed.shows_exec (v := x d.u) (fun u hu => ?_) (fun s r hrest => ?_) t p
  · obtain ⟨t, l, hl, rfl⟩ := DepthUpdate.mem_updates.mp hu
    rw [OrderBookUpdate.left_ofLevel]
    exact (hd.tells t l hl).1
  · have hshows := h.shows s r
    rw [ExchangeBook.seenBy, hn] at hshows
    have hquiet : x n s r = x d.u s r := by
      refine hd.quiet s r (fun l hl heq => ?_) n hpu hu
      exact hrest _ (DepthUpdate.mem_updates.mpr ⟨s, l, hl, rfl⟩) ⟨rfl, heq.symm⟩
    rwa [← hquiet]

/-- **A snapshot.** -/
theorem publishSnapshot (h : Mirrors x origin tick depth delta m b a) {r : DepthResponse}
    (hr : ∀ t, x.Tells origin tick r.lastUpdateId t (r.levels t)) :
    ∃ a', Mirrors x origin tick depth delta (m.see (.publishSnapshot r))
      (DepthEffect.publish maxLevels b (.publishSnapshot r)) a' := by
  have hlevels : ∀ t, ∀ l ∈ ((r.levels t).take maxLevels).map fun l => OrderBookLevel.mk l.1 l.2,
      x r.lastUpdateId t l.price = l.quantity ∧ OnGrid origin tick l.price ∧ 0 ≤ l.quantity := by
    intro t l hl
    obtain ⟨level, hlevel, rfl⟩ := List.mem_map.mp hl
    exact hr t level (List.mem_of_mem_take hlevel)
  have hbids : (r.snapshot b.instrument maxLevels).bidLevels =
      ((r.levels .bid).take maxLevels).map fun l => ⟨l.1, l.2⟩ :=
    OrderBookSnapShot.bidLevels_ofLevels _ _ _
  have hasks : (r.snapshot b.instrument maxLevels).askLevels =
      ((r.levels .ask).take maxLevels).map fun l => ⟨l.1, l.2⟩ :=
    OrderBookSnapShot.askLevels_ofLevels _ _ _
  have hok : (BookCall.snapshot (r.snapshot b.instrument maxLevels)).Ok origin tick := by
    intro l hl
    rw [hbids, hasks, List.mem_append] at hl
    exact hl.elim (fun hl => (hlevels .bid l hl).2) fun hl => (hlevels .ask l hl).2
  refine ⟨_, h.refines.call hok, fun t p => ?_⟩
  refine WindowBook.shows_snapshot (v := x r.lastUpdateId) (fun l hl => ?_) (fun l hl => ?_) t p
  · exact (hlevels .bid l (hbids ▸ hl)).1
  · exact (hlevels .ask l (hasks ▸ hl)).1

/-- **Each effect in order** leaves a book that shows what the exchange has. -/
theorem publish (h : Mirrors x origin tick depth delta m b a) {e : DepthEffect}
    (horder : m.InOrder e) (he : x.Truthful origin tick e) :
    ∃ a', Mirrors x origin tick depth delta (m.see e) (DepthEffect.publish maxLevels b e) a' := by
  cases e with
  | applyUpdate d => exact h.applyUpdate horder he
  | publishSnapshot r => exact h.publishSnapshot he
  | sendRequest | postReFetch | restartWebsocket => exact ⟨a, h.refines, h.shows⟩

/-- **The effects of a run.** -/
theorem exec (h : Mirrors x origin tick depth delta m b a) {effects : List DepthEffect}
    (horder : Run.Along StreamMonitor.see StreamMonitor.InOrder m effects)
    (htrue : ∀ e ∈ effects, x.Truthful origin tick e) :
    ∃ a', Mirrors x origin tick depth delta (Run.exec StreamMonitor.see m effects)
      (Run.exec (DepthEffect.publish maxLevels) b effects) a' := by
  induction effects generalizing m b a with
  | nil => exact ⟨a, h⟩
  | cons e effects ih =>
    obtain ⟨he, hrest⟩ := List.forall_mem_cons.mp htrue
    obtain ⟨a', h'⟩ := h.publish horder.1 he
    exact ih h' horder.2 hrest

/-- What a book that mirrors the exchange reports as its best price. -/
theorem best (h : Mirrors x origin tick depth delta m b a) {t : OrderBookSideType}
    (htop : (b.getSide t).hasTop = true) :
    0 < (b.getSide t).getTopQuantity ∧
      x.seenBy m t (b.getSide t).getTopPrice = (b.getSide t).getTopQuantity := by
  obtain ⟨hbest, hquantity⟩ := (h.refines.top_eq t).2 htop
  have hne := IsBest.mem hbest
  have hpos := lt_of_le_of_ne (h.refines.nonneg t _) (Ne.symm hne)
  rw [hquantity]
  exact ⟨hpos, ((h.shows t _).resolve_left hne).symm⟩

end Mirrors

/-! ## What the machine publishes -/

namespace BinanceOrderBook

/-- The drain applies updates of the buffer. -/
theorem drain_applied (buffer : List DepthUpdate) :
    ∀ (b : BinanceOrderBook) (found : Bool),
      ∀ e ∈ (b.drain found buffer).2.1, ∃ d ∈ buffer, e = .applyUpdate d := by
  induction buffer with
  | nil => exact fun _ _ _ he => absurd he List.not_mem_nil
  | cons d rest ih =>
    intro b found e he
    have hrest : ∀ {b : BinanceOrderBook} {found : Bool}, e ∈ (b.drain found rest).2.1 →
        ∃ d' ∈ d :: rest, e = .applyUpdate d' := by
      intro b found he
      obtain ⟨d', hd', heq⟩ := ih b found e he
      exact ⟨d', List.mem_cons_of_mem d hd', heq⟩
    rw [drain] at he
    split_ifs at he
    · exact hrest he
    · exact (List.mem_cons.mp he).elim (fun heq => ⟨d, List.mem_cons_self, heq⟩) hrest
    · exact absurd he List.not_mem_nil
    · exact absurd he List.not_mem_nil
    · exact (List.mem_cons.mp he).elim (fun heq => ⟨d, List.mem_cons_self, heq⟩) hrest

/-- A response publishes itself and updates of the buffer. -/
theorem resumeWithSnapshot_published (b : BinanceOrderBook) (r : DepthResponse) :
    ∀ e ∈ (b.resumeWithSnapshot r).2, e = .publishSnapshot r ∨ e = .postReFetch ∨
      ∃ d ∈ b.bufferedUpdates, e = .applyUpdate d := by
  intro e he
  have hdrained := drain_applied b.bufferedUpdates
    { b with snapshotLastUpdateId := r.lastUpdateId } false e
  rw [resumeWithSnapshot] at he
  split_ifs at he
  · rw [List.cons_append, List.mem_cons, List.mem_append, List.mem_singleton] at he
    exact he.imp_right fun he => he.elim (fun he => .inr (hdrained he)) .inl
  · exact (List.mem_cons.mp he).imp_right fun he => .inr (hdrained he)

/-- A live update publishes itself at most. -/
theorem checkApplyUpdate_published (b : BinanceOrderBook) (d : DepthUpdate) :
    ∀ e ∈ (b.checkApplyUpdate d).2, e = .postReFetch ∨ e = .applyUpdate d := by
  intro e he
  rw [checkApplyUpdate] at he
  split_ifs at he
  · exact absurd he List.not_mem_nil
  · exact .inl (List.mem_singleton.mp he)
  · exact .inr (List.mem_singleton.mp he)

end BinanceOrderBook

namespace DepthSync

open StreamMonitor Run

variable {x : ExchangeBook} {origin tick : ℚ} {s : DepthSync} {m : StreamMonitor}

/-- The buffer holds messages of the exchange. -/
def Buffers (x : ExchangeBook) (origin tick : ℚ) (s : DepthSync) : Prop :=
  ∀ d ∈ s.book.bufferedUpdates, x.Describes origin tick d

theorem truthful_message (h : s.Buffers x origin tick) {d : DepthUpdate}
    (hd : x.Describes origin tick d) :
    (∀ e ∈ (s.step (.message d)).2, x.Truthful origin tick e) ∧
      (next step s (.message d)).Buffers x origin tick := by
  have hbuffered : ∀ d' ∈ s.book.bufferedUpdates ++ [d], x.Describes origin tick d' := by
    intro d' hd'
    exact (List.mem_append.mp hd').elim (h d') fun hmem => List.mem_singleton.mp hmem ▸ hd
  rw [next, Buffers]
  cases hflag : s.book.hasReceivedFirstUpdate with
  | false =>
    rw [step_message_first hflag]
    exact ⟨fun e he => List.mem_singleton.mp he ▸ trivial, hbuffered⟩
  | true =>
    rw [step_message_later hflag]
    cases hstate : s.book.syncState with
    | none =>
      rw [BinanceOrderBook.handleOrderBookUpdate_none hstate]
      exact ⟨fun e he => absurd he List.not_mem_nil, h⟩
    | buffering =>
      rw [BinanceOrderBook.handleOrderBookUpdate_buffering hstate]
      exact ⟨fun e he => absurd he List.not_mem_nil, hbuffered⟩
    | synced =>
      rw [BinanceOrderBook.handleOrderBookUpdate_synced hstate]
      obtain ⟨-, -, hbuf⟩ := s.book.checkApplyUpdate_members d
      refine ⟨fun e he => ?_, fun d' hd' => h d' (hbuf ▸ hd')⟩
      rcases s.book.checkApplyUpdate_published d e he with rfl | rfl
      · exact trivial
      · exact hd

theorem truthful_response (h : s.Buffers x origin tick) (i : ℕ) {r : DepthResponse}
    (hr : ∀ t, x.Tells origin tick r.lastUpdateId t (r.levels t)) :
    (∀ e ∈ (s.step (.response i r)).2, x.Truthful origin tick e) ∧
      (next step s (.response i r)).Buffers x origin tick := by
  rw [next]
  by_cases hi : i < s.requests.length
  · rw [step_response hi]
    obtain ⟨-, hbuf⟩ := s.book.resumeWithSnapshot_members r
    refine ⟨fun e he => ?_, fun d hd => h d (hbuf d hd)⟩
    rcases s.book.resumeWithSnapshot_published r e he with rfl | rfl | ⟨d, hd, rfl⟩
    · exact hr
    · exact trivial
    · exact h d hd
  · rw [step_response_none hi]
    exact ⟨fun e he => absurd he List.not_mem_nil, h⟩

/-- **One step** publishes what the exchange has sent. -/
theorem truthful_step (h : s.Buffers x origin tick) {e : DepthEvent}
    (he : x.Feeds origin tick e) :
    (∀ e' ∈ (s.step e).2, x.Truthful origin tick e') ∧
      (next step s e).Buffers x origin tick := by
  cases e with
  | message d => exact truthful_message h he
  | response i r => exact truthful_response h i he
  | reFetch =>
    exact ⟨fun e he => List.mem_singleton.mp he ▸ trivial, fun d hd => absurd hd List.not_mem_nil⟩

/-! ## Every run -/

variable {depth : ℕ} {delta : ℚ} {b : OrderBook} (maxLevels : ℕ)

/-- **A run whose updates are in order** leaves a book that shows what the exchange has. -/
theorem mirrors_exec {a : WindowBook ℚ ℚ} (hinv : s.Inv m) (hbuf : s.Buffers x origin tick)
    (h : Mirrors x origin tick depth delta m b a) {es : List DepthEvent}
    (hlegal : Along (next step) Legal s es) (hbridged : Along (next step) Bridged s es)
    (hfeed : ∀ e ∈ es, x.Feeds origin tick e) :
    ∃ a', Mirrors x origin tick depth delta (exec see m (trace step s es))
      (exec (DepthEffect.publish maxLevels) b (trace step s es)) a' := by
  induction es generalizing s m b a with
  | nil => exact ⟨a, h⟩
  | cons e es ih =>
    obtain ⟨he, hrest⟩ := List.forall_mem_cons.mp hfeed
    obtain ⟨hiff, hinv'⟩ := hinv.step hlegal.1
    obtain ⟨htrue, hbuf'⟩ := truthful_step hbuf he
    obtain ⟨a', h'⟩ := h.exec (hiff.mpr hbridged.1) htrue
    rw [trace, exec_append, exec_append]
    exact ih hinv' hbuf' h' hlegal.2 hbridged.2 hrest

theorem mirrors_init {i : Option Instrument}
    (h : OrderBook.create i origin tick depth delta = .ok b) :
    Mirrors x origin tick depth delta {} b (.init origin) :=
  ⟨Refines.of_create h (List.forall_mem_nil _), fun _ _ => .inl rfl⟩

/-- **The local book shows what the exchange has.**  In every run in which the updates that come
live with `m_package_last_update_id` at 0 bridge the snapshot, a quantity of the local book is that
of the exchange at the id of the last update, wherever it is not zero; so its best prices are prices
at which the exchange has the quantity that it reports. -/
theorem mirrors_of_run {i : Option Instrument} {b₀ : OrderBook}
    (hcreate : OrderBook.create i origin tick depth delta = .ok b₀) {es : List DepthEvent}
    (hlegal : Along (next step) Legal {} es) (hbridged : Along (next step) Bridged {} es)
    (hfeed : ∀ e ∈ es, x.Feeds origin tick e) :
    let m := exec see {} (trace step {} es)
    let b := exec (DepthEffect.publish maxLevels) b₀ (trace step {} es)
    ∀ t,
      (∀ p, OnGrid origin tick p → (b.getSide t).getQuantity p = 0 ∨
        (b.getSide t).getQuantity p = x.seenBy m t p) ∧
      ((b.getSide t).hasTop = true → 0 < (b.getSide t).getTopQuantity ∧
        x.seenBy m t (b.getSide t).getTopPrice = (b.getSide t).getTopQuantity) := by
  intro m b t
  have hbuf : Buffers x origin tick {} := fun d hd => absurd hd List.not_mem_nil
  obtain ⟨a, h⟩ :=
    mirrors_exec maxLevels inv_init hbuf (mirrors_init hcreate) hlegal hbridged hfeed
  refine ⟨fun p hp => ?_, h.best⟩
  rw [h.refines.quantity_eq t p hp]
  exact h.shows t p

/-- An exchange with one bid, whose quantity changes at id 13. -/
def oneBid : ExchangeBook := fun n t p =>
  if t = .bid ∧ p = 10 then if n ≤ 12 then 5 else 7 else 0

/-- The bid is in a buffered message and in the snapshot, and a live message changes it. -/
def oneBidRun : List DepthEvent :=
  [.message { U := 8, u := 12, pu := 7, bids := [(10, 5)] },
    .response 0 { lastUpdateId := 10, bids := [(10, 5)] },
    .message { U := 13, u := 15, pu := 12, bids := [(10, 7)] }]

theorem oneBid_quiet {t : OrderBookSideType} {p : ℚ} (h : ¬ (t = .bid ∧ p = 10)) (n n' : ℕ) :
    oneBid n t p = oneBid n' t p := by
  rw [oneBid, oneBid, if_neg h, if_neg h]

theorem oneBid_tells {n : ℕ} {q : ℚ} (hq : oneBid n .bid 10 = q) (h0 : 0 ≤ q)
    (t : OrderBookSideType) :
    oneBid.Tells 10 1 n t
      (DepthUpdate.levels { U := 0, u := 0, pu := 0, bids := [(10, q)] } t) := by
  cases t
  · intro l hl
    rw [List.mem_singleton.mp hl]
    exact ⟨hq, onGrid_self 10 1, h0⟩
  · exact fun l hl => absurd hl List.not_mem_nil

theorem oneBid_describes {U u pu : ℕ} {q : ℚ} (horder : pu ≤ U ∧ U ≤ u)
    (hq : oneBid u .bid 10 = q) (h0 : 0 ≤ q) :
    oneBid.Describes 10 1 { U := U, u := u, pu := pu, bids := [(10, q)] } where
  ordered := horder
  tells := oneBid_tells hq h0
  quiet t p hnot n _ _ := by
    refine oneBid_quiet ?_ n u
    rintro ⟨rfl, rfl⟩
    exact hnot (10, q) (List.mem_singleton_self _) rfl

theorem oneBidRun_feeds : ∀ e ∈ oneBidRun, oneBid.Feeds 10 1 e := by
  simp only [oneBidRun, List.forall_mem_cons]
  refine ⟨?_, ?_, ?_, List.forall_mem_nil _⟩
  · exact oneBid_describes (by decide) (by decide) (by decide)
  · exact oneBid_tells (by decide) (by decide)
  · exact oneBid_describes (by decide) (by decide) (by decide)

theorem oneBidRun_mirrors :
    let b := exec (DepthEffect.publish 200) bookAtTen (trace step {} oneBidRun)
    (b.getSide .bid).getQuantity 10 = 7 ∧
      oneBid.seenBy (exec see {} (trace step {} oneBidRun)) .bid 10 = 7 := by
  have hquantity : ((exec (DepthEffect.publish 200) bookAtTen
      (trace step {} oneBidRun)).getSide .bid).getQuantity 10 = 7 := by decide +kernel
  have hmirrors := (mirrors_of_run 200 create_bookAtTen (by decide) (by decide) oneBidRun_feeds
    .bid).1 10 (onGrid_self 10 1)
  rw [hquantity] at hmirrors
  exact ⟨hquantity, (hmirrors.resolve_left (by norm_num)).symm⟩

end DepthSync

end TradingEngine
