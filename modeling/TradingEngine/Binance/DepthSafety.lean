import TradingEngine.Binance.DepthSync

/-!
# Binance/DepthSafety — which updates reach the book

`StreamMonitor` remembers the latest snapshot published and the last update applied since.  An
update is *in order* if it bridges that snapshot, when it is the first one, or else follows the one
before.

The buffer is drained in order (`drain_spec`).  The live path is in order once one update was
applied since the snapshot; with `m_package_last_update_id` still 0 it checks nothing, so what it
applies is in order exactly when it happens to bridge.  `stream_inOrder_iff` is this along every
run.
-/

namespace TradingEngine

/-- What has been published so far: the latest snapshot, and the last update since. -/
structure StreamMonitor where
  snapshot : Option ℕ := none
  last : Option ℕ := none

namespace StreamMonitor

/-- The monitor after an effect. -/
def see (m : StreamMonitor) : DepthEffect → StreamMonitor
  | .publishSnapshot r => { snapshot := some r.lastUpdateId, last := none }
  | .applyUpdate d => { m with last := some d.u }
  | .sendRequest | .postReFetch | .restartWebsocket => m

/-- An update that comes first after a snapshot bridges it, any other one follows the update before
it; without a snapshot none is applied. -/
def InOrder (m : StreamMonitor) : DepthEffect → Prop
  | .applyUpdate d =>
    match m.last, m.snapshot with
    | some u, _ => d.pu = u
    | none, some l => d.U ≤ l ∧ l ≤ d.u
    | none, none => False
  | .sendRequest | .publishSnapshot _ | .postReFetch | .restartWebsocket => True

instance decidableInOrder (m : StreamMonitor) : DecidablePred m.InOrder
  | .applyUpdate d =>
    match m with
    | ⟨_, some u⟩ => inferInstanceAs (Decidable (d.pu = u))
    | ⟨some l, none⟩ => inferInstanceAs (Decidable (d.U ≤ l ∧ l ≤ d.u))
    | ⟨none, none⟩ => .isFalse not_false
  | .sendRequest | .publishSnapshot _ | .postReFetch | .restartWebsocket => .isTrue trivial

end StreamMonitor

open StreamMonitor Run

/-! ## Draining the buffer -/

namespace BinanceOrderBook

/-- How far the monitor and the members agree after a snapshot: an id of 0 says that nothing was
applied since. -/
structure Follows (b : BinanceOrderBook) (m : StreamMonitor) : Prop where
  snapshot : m.snapshot = some b.snapshotLastUpdateId
  last : m.last = if b.packageLastUpdateId = 0 then none else some b.packageLastUpdateId

/-- The monitor inside the loop, where `found_first_valid_update` is a variable of its own. -/
structure Draining (b : BinanceOrderBook) (found : Bool) (m : StreamMonitor) : Prop where
  follows : b.Follows m
  found_iff : found = true ↔ b.packageLastUpdateId ≠ 0

/-- Applying `d` keeps the loop's invariant. -/
theorem Draining.apply {b : BinanceOrderBook} {found : Bool} {m : StreamMonitor}
    (h : b.Draining found m) {d : DepthUpdate} (hd : d.u ≠ 0) :
    Draining { b with packageLastUpdateId := d.u } true (m.see (.applyUpdate d)) where
  follows := ⟨h.follows.snapshot, by simp [see, hd]⟩
  found_iff := by simpa using hd

/-- **The drain applies in order**, ends following the monitor and leaves the other members
alone. -/
theorem drain_spec (buffer : List DepthUpdate) (hbuf : ∀ d ∈ buffer, d.u ≠ 0) :
    ∀ (b : BinanceOrderBook) (found : Bool) (m : StreamMonitor), b.Draining found m →
      Along see InOrder m (b.drain found buffer).2.1 ∧
        (b.drain found buffer).1.Follows (exec see m (b.drain found buffer).2.1) := by
  induction buffer with
  | nil =>
    intro b found m h
    exact ⟨trivial, h.follows.snapshot, h.follows.last⟩
  | cons d rest ih =>
    intro b found m h
    have hd : d.u ≠ 0 := hbuf d List.mem_cons_self
    have ih' := ih fun d' hd' => hbuf d' (List.mem_cons_of_mem _ hd')
    obtain ⟨halong, hfollows⟩ := ih' _ _ _ (h.apply hd)
    rw [drain]
    split_ifs with hold hfound hbridge hpu
    · exact ih' b found m h
    · -- the first update applied: nothing since the snapshot, and the bridge was checked
      have hzero : b.packageLastUpdateId = 0 := by
        by_contra hne
        exact Bool.false_ne_true (hfound.symm.trans (h.found_iff.mpr hne))
      refine ⟨⟨?_, halong⟩, hfollows⟩
      simpa [InOrder, h.follows.last, hzero, h.follows.snapshot] using hbridge
    · exact ⟨trivial, h.follows.snapshot, h.follows.last⟩
    · exact ⟨trivial, h.follows.snapshot, h.follows.last⟩
    · have hne : b.packageLastUpdateId ≠ 0 := h.found_iff.mp (by simpa using hfound)
      refine ⟨⟨?_, halong⟩, hfollows⟩
      simpa [InOrder, h.follows.last, hne] using hpu

/-- The drain leaves the state and the flag alone, and only takes from the buffer. -/
theorem drain_members (buffer : List DepthUpdate) :
    ∀ (b : BinanceOrderBook) (found : Bool),
      (b.drain found buffer).1.syncState = b.syncState ∧
        (b.drain found buffer).1.hasReceivedFirstUpdate = b.hasReceivedFirstUpdate ∧
          ∀ d ∈ (b.drain found buffer).1.bufferedUpdates, d ∈ buffer := by
  induction buffer with
  | nil => exact fun b found => ⟨rfl, rfl, fun d hd => hd⟩
  | cons d rest ih =>
    intro b found
    have hrest : ∀ d' ∈ rest, d' ∈ d :: rest := fun d' => List.mem_cons_of_mem d
    have happly := ih { b with packageLastUpdateId := d.u } true
    rw [drain]
    split_ifs
    · exact ⟨(ih b found).1, (ih b found).2.1, fun d' hd' => hrest d' ((ih b found).2.2 d' hd')⟩
    · exact ⟨happly.1, happly.2.1, fun d' hd' => hrest d' (happly.2.2 d' hd')⟩
    · exact ⟨rfl, rfl, hrest⟩
    · exact ⟨rfl, rfl, hrest⟩
    · exact ⟨happly.1, happly.2.1, fun d' hd' => hrest d' (happly.2.2 d' hd')⟩

/-- **A response applies in order**, whether or not the drain succeeds, if nothing was applied
before it came. -/
theorem resumeWithSnapshot_spec {b : BinanceOrderBook} (hzero : b.packageLastUpdateId = 0)
    (hbuf : ∀ d ∈ b.bufferedUpdates, d.u ≠ 0) (m : StreamMonitor) (r : DepthResponse) :
    Along see InOrder m (b.resumeWithSnapshot r).2 ∧
      (b.resumeWithSnapshot r).1.Follows (exec see m (b.resumeWithSnapshot r).2) := by
  have hstart : Draining { b with snapshotLastUpdateId := r.lastUpdateId } false
      (m.see (.publishSnapshot r)) := ⟨⟨rfl, by simp [see, hzero]⟩, by simp [hzero]⟩
  obtain ⟨halong, hfollows⟩ := drain_spec b.bufferedUpdates hbuf _ _ _ hstart
  rw [resumeWithSnapshot]
  split_ifs
  · refine ⟨⟨trivial, (along_append _ _ _).mpr ⟨halong, trivial, trivial⟩⟩, ?_⟩
    rw [List.cons_append, exec_cons, exec_append]
    exact ⟨hfollows.snapshot, hfollows.last⟩
  · exact ⟨⟨trivial, halong⟩, hfollows.snapshot, hfollows.last⟩

/-- A response leaves the flag alone and only takes from the buffer. -/
theorem resumeWithSnapshot_members (b : BinanceOrderBook) (r : DepthResponse) :
    (b.resumeWithSnapshot r).1.hasReceivedFirstUpdate = b.hasReceivedFirstUpdate ∧
      ∀ d ∈ (b.resumeWithSnapshot r).1.bufferedUpdates, d ∈ b.bufferedUpdates := by
  obtain ⟨-, hflag, hbuf⟩ :=
    drain_members b.bufferedUpdates { b with snapshotLastUpdateId := r.lastUpdateId } false
  rw [resumeWithSnapshot]
  split_ifs
  · exact ⟨hflag, hbuf⟩
  · exact ⟨hflag, hbuf⟩

/-- With an empty buffer a response applies nothing. -/
theorem resumeWithSnapshot_nil {b : BinanceOrderBook} (hbuf : b.bufferedUpdates = [])
    (r : DepthResponse) :
    (b.resumeWithSnapshot r).1.packageLastUpdateId = b.packageLastUpdateId := by
  simp [resumeWithSnapshot, processBufferedUpdatesAfterSnapshot, hbuf, drain]

/-- **A live update is in order** if one was applied since the snapshot, and otherwise exactly when
it bridges. -/
theorem checkApplyUpdate_spec {b : BinanceOrderBook} {m : StreamMonitor} (h : b.Follows m)
    {d : DepthUpdate} (hd : d.u ≠ 0) :
    (Along see InOrder m (b.checkApplyUpdate d).2 ↔ (b.packageLastUpdateId = 0 →
      d.U ≤ b.snapshotLastUpdateId ∧ b.snapshotLastUpdateId ≤ d.u)) ∧
    (b.checkApplyUpdate d).1.Follows (exec see m (b.checkApplyUpdate d).2) := by
  by_cases hzero : b.packageLastUpdateId = 0
  · have happly : b.checkApplyUpdate d =
        ({ b with packageLastUpdateId := d.u }, [.applyUpdate d]) := by
      simp [checkApplyUpdate, hzero]
    rw [happly]
    exact ⟨by simp [InOrder, h.last, hzero, h.snapshot], h.snapshot, by simp [see, hd]⟩
  · rw [checkApplyUpdate]
    split_ifs with hold hpu
    · exact ⟨iff_of_true trivial fun h0 => absurd h0 hzero, h⟩
    · exact ⟨iff_of_true ⟨trivial, trivial⟩ fun h0 => absurd h0 hzero, h⟩
    · have hchain : d.pu = b.packageLastUpdateId := not_not.mp fun hc => hpu ⟨hzero, hc⟩
      refine ⟨iff_of_true ⟨?_, trivial⟩ fun h0 => absurd h0 hzero, h.snapshot, by simp [see, hd]⟩
      simpa [InOrder, h.last, hzero] using hchain

/-- The live path touches no member but the id. -/
theorem checkApplyUpdate_members (b : BinanceOrderBook) (d : DepthUpdate) :
    (b.checkApplyUpdate d).1.syncState = b.syncState ∧
      (b.checkApplyUpdate d).1.hasReceivedFirstUpdate = b.hasReceivedFirstUpdate ∧
        (b.checkApplyUpdate d).1.bufferedUpdates = b.bufferedUpdates := by
  rw [checkApplyUpdate]
  split_ifs <;> exact ⟨rfl, rfl, rfl⟩

end BinanceOrderBook

/-! ## The invariant -/

namespace DepthSync

/-- What holds between two events of a run with at most one request outstanding. -/
structure Inv (s : DepthSync) (m : StreamMonitor) : Prop where
  /-- Before the first message of a connection nothing is buffered or applied. -/
  fresh : s.book.hasReceivedFirstUpdate = false →
    s.book.packageLastUpdateId = 0 ∧ s.book.bufferedUpdates = []
  one : s.requests.length ≤ 1
  /-- A request that is still out finds nothing applied. -/
  waiting : s.requests ≠ [] → s.book.syncState ≠ .synced ∧ s.book.packageLastUpdateId = 0
  /-- Live, the ids say what the monitor saw. -/
  live : s.book.syncState = .synced → s.book.hasReceivedFirstUpdate = true → s.book.Follows m
  buffered : ∀ d ∈ s.book.bufferedUpdates, d.u ≠ 0

/-- At most one request is outstanding after the step. -/
def OneRequest (s : DepthSync) (e : DepthEvent) : Prop := (next step s e).requests.length ≤ 1

/-- The ids of the exchange are positive. -/
def PositiveId : DepthEvent → Prop
  | .message d => d.u ≠ 0
  | .response _ _ | .reFetch => True

/-- **The condition.**  An update that arrives live while `m_package_last_update_id` is 0 bridges
the snapshot. -/
def Bridged (s : DepthSync) : DepthEvent → Prop
  | .message d =>
    s.book.syncState = .synced → s.book.hasReceivedFirstUpdate = true →
      s.book.packageLastUpdateId = 0 →
        d.U ≤ s.book.snapshotLastUpdateId ∧ s.book.snapshotLastUpdateId ≤ d.u
  | .response _ _ | .reFetch => True

theorem inv_init : Inv {} {} where
  fresh _ := ⟨rfl, rfl⟩
  one := Nat.zero_le 1
  waiting h := absurd rfl h
  live h := SyncState.noConfusion h
  buffered _ hd := absurd hd List.not_mem_nil

variable {s : DepthSync} {m : StreamMonitor}

/-- A message: the invariant is kept, and what is applied is in order exactly when the condition
holds. -/
theorem Inv.message (h : s.Inv m) {d : DepthUpdate} (hd : d.u ≠ 0)
    (hone : s.OneRequest (.message d)) :
    (Along see InOrder m (s.step (.message d)).2 ↔ s.Bridged (.message d)) ∧
      (next step s (.message d)).Inv (exec see m (s.step (.message d)).2) := by
  have hbuf : ∀ d' ∈ s.book.bufferedUpdates ++ [d], d'.u ≠ 0 := by
    intro d' hd'
    rcases List.mem_append.mp hd' with hmem | hmem
    · exact h.buffered d' hmem
    · rwa [List.mem_singleton.mp hmem]
  rw [OneRequest] at hone
  rw [next] at hone ⊢
  cases hflag : s.book.hasReceivedFirstUpdate with
  | false =>
    rw [step_message_first hflag] at hone ⊢
    refine ⟨iff_of_true ⟨trivial, trivial⟩ fun _ hc => ?_, fun hc => ?_, hone, fun _ => ?_,
      fun hc => ?_, hbuf⟩
    · exact absurd (hflag.symm.trans hc) Bool.false_ne_true
    · exact absurd hc.symm Bool.false_ne_true
    · exact ⟨SyncState.noConfusion, (h.fresh hflag).1⟩
    · exact SyncState.noConfusion hc
  | true =>
    rw [step_message_later hflag] at hone ⊢
    cases hstate : s.book.syncState with
    | none =>
      rw [BinanceOrderBook.handleOrderBookUpdate_none hstate]
      refine ⟨iff_of_true trivial fun hc => ?_, h⟩
      exact SyncState.noConfusion (hstate.symm.trans hc)
    | buffering =>
      rw [BinanceOrderBook.handleOrderBookUpdate_buffering hstate]
      refine ⟨iff_of_true trivial fun hc => ?_, fun hc => ?_, h.one, h.waiting, fun hc => ?_, hbuf⟩
      · exact SyncState.noConfusion (hstate.symm.trans hc)
      · exact absurd (hflag.symm.trans hc) Bool.noConfusion
      · exact SyncState.noConfusion (hstate.symm.trans hc)
    | synced =>
      rw [BinanceOrderBook.handleOrderBookUpdate_synced hstate]
      obtain ⟨hiff, hfollows⟩ :=
        BinanceOrderBook.checkApplyUpdate_spec (h.live hstate hflag) hd
      obtain ⟨-, hflag', hbuf'⟩ := s.book.checkApplyUpdate_members d
      refine ⟨hiff.trans ⟨fun hb _ _ => hb, fun hb => hb hstate hflag⟩, fun hc => ?_, h.one,
        fun hc => ?_, fun _ _ => hfollows, fun d' hd' => h.buffered d' (hbuf' ▸ hd')⟩
      · exact absurd (hflag.symm.trans (hflag'.symm.trans hc)) Bool.noConfusion
      · exact absurd hstate (h.waiting hc).1

/-- A response: the invariant is kept, and the drain is in order. -/
theorem Inv.response (h : s.Inv m) (i : ℕ) (r : DepthResponse) :
    Along see InOrder m (s.step (.response i r)).2 ∧
      (next step s (.response i r)).Inv (exec see m (s.step (.response i r)).2) := by
  rw [next]
  by_cases hi : i < s.requests.length
  · have hne : s.requests ≠ [] := List.ne_nil_of_length_pos (Nat.zero_lt_of_lt hi)
    have hzero := (h.waiting hne).2
    obtain ⟨halong, hfollows⟩ := BinanceOrderBook.resumeWithSnapshot_spec hzero h.buffered m r
    obtain ⟨hflag, hbuf⟩ := s.book.resumeWithSnapshot_members r
    have hnone : (s.requests.eraseIdx i).length = 0 := by
      have := h.one
      rw [List.length_eraseIdx_of_lt hi]
      omega
    rw [step_response hi]
    refine ⟨halong, fun hf => ?_, hnone.le.trans zero_le_one, fun hc => ?_, fun _ _ => hfollows,
      fun d hd => h.buffered d (hbuf d hd)⟩
    · obtain ⟨-, hempty⟩ := h.fresh (hflag.symm.trans hf)
      refine ⟨(BinanceOrderBook.resumeWithSnapshot_nil hempty r).trans hzero, ?_⟩
      exact List.eq_nil_iff_forall_not_mem.mpr fun d hd => by simpa [hempty] using hbuf d hd
    · exact absurd (List.eq_nil_of_length_eq_zero hnone) hc
  · rw [step_response_none hi]
    exact ⟨trivial, h⟩

/-- A re-fetch leaves nothing to follow. -/
theorem Inv.reFetch (h : s.Inv m) :
    (next step s .reFetch).Inv (exec see m (s.step .reFetch).2) where
  fresh _ := ⟨rfl, rfl⟩
  one := h.one
  waiting _ := ⟨SyncState.noConfusion, rfl⟩
  live hc := SyncState.noConfusion hc
  buffered _ hd := absurd hd List.not_mem_nil

/-! ## Every run -/

/-- A step of the runs considered. -/
def Legal (s : DepthSync) (e : DepthEvent) : Prop := s.OneRequest e ∧ PositiveId e

instance decidablePositiveId : DecidablePred PositiveId
  | .message d => inferInstanceAs (Decidable (d.u ≠ 0))
  | .response _ _ | .reFetch => .isTrue trivial

instance decidableLegal (s : DepthSync) (e : DepthEvent) : Decidable (s.Legal e) :=
  inferInstanceAs (Decidable ((next step s e).requests.length ≤ 1 ∧ PositiveId e))

instance decidableBridged (s : DepthSync) : DecidablePred s.Bridged
  | .message d =>
    inferInstanceAs (Decidable (s.book.syncState = .synced → s.book.hasReceivedFirstUpdate = true →
      s.book.packageLastUpdateId = 0 →
        d.U ≤ s.book.snapshotLastUpdateId ∧ s.book.snapshotLastUpdateId ≤ d.u))
  | .response _ _ | .reFetch => .isTrue trivial

/-- **One step**: the invariant is kept, and the updates applied are in order exactly when the step
meets the condition. -/
theorem Inv.step (h : s.Inv m) {e : DepthEvent} (hlegal : s.Legal e) :
    (Along see InOrder m (s.step e).2 ↔ s.Bridged e) ∧
      (next DepthSync.step s e).Inv (exec see m (s.step e).2) := by
  cases e with
  | message d => exact h.message hlegal.2 hlegal.1
  | response i r => exact ⟨iff_of_true (h.response i r).1 trivial, (h.response i r).2⟩
  | reFetch => exact ⟨iff_of_true ⟨trivial, trivial⟩ trivial, h.reFetch⟩

/-- **Depth-sync safety, exactly.**  In a run from the initial state with at most one request
outstanding and positive ids, every update passed to `apply_update` is in order if and only if every
update that arrived live with `m_package_last_update_id` at 0 bridged the snapshot. -/
theorem stream_inOrder_iff (es : List DepthEvent) (hlegal : Along (next step) Legal {} es) :
    Along see InOrder {} (trace step {} es) ↔ Along (next step) Bridged {} es := by
  have hwatch : ∀ P : DepthSync → DepthEvent → Prop,
      Along (watch step see) (fun p e => P p.1 e) (({} : DepthSync), ({} : StreamMonitor)) es ↔
        Along (next step) P {} es := fun P => along_watch _ _ es
  rw [along_trace, ← hwatch Bridged]
  exact along_iff_of_invariant (I := fun p : DepthSync × StreamMonitor => p.1.Inv p.2)
    (fun p e hI hL _ => (hI.step hL).2) (fun p e hI hL => (hI.step hL).1) inv_init
    ((hwatch Legal).mpr hlegal)

/-- The buffered update bridges the snapshot, and the live one follows it. -/
def steadyRun : List DepthEvent :=
  [.message { U := 8, u := 12, pu := 7 }, .response 0 { lastUpdateId := 10 },
    .message { U := 13, u := 15, pu := 12 }]

theorem steadyRun_inOrder :
    Along (next step) Legal {} steadyRun ∧ Along see InOrder {} (trace step {} steadyRun) :=
  ⟨by decide, (stream_inOrder_iff steadyRun (by decide)).mpr (by decide)⟩

/-- The only buffered update is older than the snapshot, and the next one leaves a gap behind it. -/
def gapRun : List DepthEvent :=
  [.message { U := 1, u := 5, pu := 0 }, .response 0 { lastUpdateId := 10 },
    .message { U := 20, u := 25, pu := 19 }]

/-- **The gap is applied.** -/
theorem gapRun_not_inOrder :
    Along (next step) Legal {} gapRun ∧ ¬ Along see InOrder {} (trace step {} gapRun) := by
  decide

end DepthSync

end TradingEngine
