import TradingEngine.Binance.DepthSafety

/-!
# Binance/SnapshotEpochs — a response does not know which connection it was asked for

An epoch runs from one re-fetch to the next.  The coroutine that waits for a snapshot keeps no
epoch, so a request sent before a re-fetch resumes like any other: it publishes its snapshot and
goes live.  As long as no such request resumes, the book is taken forward only: the one snapshot of
an epoch is published before any update of it.  `snapshotEpochs_iff` says that this is exactly when.
-/

namespace TradingEngine

/-- Whether the effect publishes a snapshot. -/
def DepthEffect.isPublish : DepthEffect → Bool
  | .publishSnapshot _ => true
  | .sendRequest | .applyUpdate _ | .postReFetch | .restartWebsocket => false

/-- The ids of the updates applied in the current epoch. -/
structure EpochMonitor where
  applied : List ℕ := []

namespace EpochMonitor

/-- The monitor after an effect; a re-fetch opens a new epoch. -/
def see (m : EpochMonitor) : DepthEffect → EpochMonitor
  | .applyUpdate d => { applied := d.u :: m.applied }
  | .restartWebsocket => {}
  | .sendRequest | .publishSnapshot _ | .postReFetch => m

/-- A snapshot is not older than an update already applied in its epoch. -/
def NotOlder (m : EpochMonitor) : DepthEffect → Prop
  | .publishSnapshot r => ∀ u ∈ m.applied, u ≤ r.lastUpdateId
  | .sendRequest | .applyUpdate _ | .postReFetch | .restartWebsocket => True

instance decidableNotOlder (m : EpochMonitor) : DecidablePred m.NotOlder
  | .publishSnapshot r => inferInstanceAs (Decidable (∀ u ∈ m.applied, u ≤ r.lastUpdateId))
  | .sendRequest | .applyUpdate _ | .postReFetch | .restartWebsocket => .isTrue trivial

end EpochMonitor

open EpochMonitor Run

/-- Effects that publish nothing cannot go back. -/
theorem along_notOlder_of_no_publish {effects : List DepthEffect}
    (h : ∀ f ∈ effects, f.isPublish = false) (m : EpochMonitor) :
    Along EpochMonitor.see NotOlder m effects := by
  induction effects generalizing m with
  | nil => trivial
  | cons f fs ih =>
    refine ⟨?_, ih (fun g hg => h g (List.mem_cons_of_mem f hg)) _⟩
    have hf := h f List.mem_cons_self
    cases f with
    | publishSnapshot r => exact absurd hf Bool.noConfusion
    | sendRequest => trivial
    | applyUpdate d => trivial
    | postReFetch => trivial
    | restartWebsocket => trivial

namespace BinanceOrderBook

/-- The drain only applies updates. -/
theorem drain_no_publish (buffer : List DepthUpdate) :
    ∀ (b : BinanceOrderBook) (found : Bool),
      ∀ f ∈ (b.drain found buffer).2.1, f.isPublish = false := by
  induction buffer with
  | nil => exact fun b found f hf => absurd hf List.not_mem_nil
  | cons d rest ih =>
    intro b found
    have happly : ∀ f ∈ DepthEffect.applyUpdate d ::
        (drain { b with packageLastUpdateId := d.u } true rest).2.1, f.isPublish = false :=
      List.forall_mem_cons.mpr ⟨rfl, ih _ true⟩
    rw [drain]
    split_ifs
    · exact ih b found
    · exact happly
    · exact fun f hf => absurd hf List.not_mem_nil
    · exact fun f hf => absurd hf List.not_mem_nil
    · exact happly

/-- **A response publishes its snapshot**, first and once. -/
theorem resumeWithSnapshot_effects (b : BinanceOrderBook) (r : DepthResponse) :
    ∃ effects, (b.resumeWithSnapshot r).2 = .publishSnapshot r :: effects ∧
      ∀ f ∈ effects, f.isPublish = false := by
  have hdrain :=
    drain_no_publish b.bufferedUpdates { b with snapshotLastUpdateId := r.lastUpdateId } false
  rw [resumeWithSnapshot]
  split_ifs
  · refine ⟨_, rfl, fun f hf => ?_⟩
    rcases List.mem_append.mp hf with hmem | hmem
    · exact hdrain f hmem
    · rw [List.mem_singleton.mp hmem]
      rfl
  · exact ⟨_, rfl, hdrain⟩

/-- A message publishes no snapshot. -/
theorem handleOrderBookUpdate_no_publish (b : BinanceOrderBook) (d : DepthUpdate) :
    ∀ f ∈ (b.handleOrderBookUpdate d).2, f.isPublish = false := by
  cases hstate : b.syncState with
  | none => simp [handleOrderBookUpdate_none hstate]
  | buffering => simp [handleOrderBookUpdate_buffering hstate]
  | synced =>
    rw [handleOrderBookUpdate_synced hstate, checkApplyUpdate]
    split_ifs <;> simp [DepthEffect.isPublish]

/-- A message moves neither the state nor the flag, once the first one is in. -/
theorem handleOrderBookUpdate_members (b : BinanceOrderBook) (d : DepthUpdate) :
    (b.handleOrderBookUpdate d).1.syncState = b.syncState ∧
      (b.handleOrderBookUpdate d).1.hasReceivedFirstUpdate = b.hasReceivedFirstUpdate := by
  cases hstate : b.syncState with
  | none => simp [handleOrderBookUpdate_none hstate, hstate]
  | buffering => simp [handleOrderBookUpdate_buffering hstate, hstate]
  | synced =>
    obtain ⟨h, h', -⟩ := b.checkApplyUpdate_members d
    rw [handleOrderBookUpdate_synced hstate]
    exact ⟨h.trans hstate, h'⟩

end BinanceOrderBook

namespace DepthSync

/-! ## What is claimed of a step -/

/-- The event resumes a request that was sent before the latest re-fetch. -/
def Stale (s : DepthSync) : DepthEvent → Prop
  | .response i _ => ∃ k ∈ s.requests[i]?, k < s.epoch
  | .message _ | .reFetch => False

/-- The event resumes the request of the current epoch. -/
def Current (s : DepthSync) : DepthEvent → Prop
  | .response i _ => s.requests[i]? = some s.epoch
  | .message _ | .reFetch => False

/-- The step publishes no snapshot and leaves the state, the snapshot id and the buffer alone. -/
def Ignored (s : DepthSync) (e : DepthEvent) : Prop :=
  (∀ f ∈ (s.step e).2, f.isPublish = false) ∧
    (next step s e).book.syncState = s.book.syncState ∧
    (next step s e).book.snapshotLastUpdateId = s.book.snapshotLastUpdateId ∧
    (next step s e).book.bufferedUpdates = s.book.bufferedUpdates

/-- A stale resumption is ignored, and only the current request goes live. -/
def EpochOk (s : DepthSync) (e : DepthEvent) : Prop :=
  (s.Stale e → s.Ignored e) ∧
    (s.book.syncState ≠ .synced → (next step s e).book.syncState = .synced → s.Current e)

variable {s : DepthSync}

/-- **A stale resumption is never ignored**: it publishes. -/
theorem Stale.not_ignored {e : DepthEvent} (h : s.Stale e) : ¬ s.Ignored e := by
  cases e with
  | message d => exact absurd h not_false
  | reFetch => exact absurd h not_false
  | response i r =>
    obtain ⟨k, hk, -⟩ := h
    obtain ⟨hi, -⟩ := List.getElem?_eq_some_iff.mp hk
    intro hignored
    obtain ⟨effects, heffects, -⟩ := s.book.resumeWithSnapshot_effects r
    have hpublish := hignored.1 (.publishSnapshot r)
    rw [step_response hi, heffects] at hpublish
    exact absurd (hpublish List.mem_cons_self) Bool.noConfusion

/-! ## The invariant of runs without stale resumptions -/

/-- Between two events: the current epoch has sent at most one request, and while it is out nothing
of the epoch was applied. -/
structure EpochInv (s : DepthSync) (m : EpochMonitor) : Prop where
  sent_le : ∀ k ∈ s.requests, k ≤ s.epoch
  once : s.requests.count s.epoch ≤ 1
  fresh : s.book.hasReceivedFirstUpdate = false → s.epoch ∉ s.requests ∧ m.applied = []
  waiting : s.epoch ∈ s.requests → s.book.syncState = .buffering ∧ m.applied = []

theorem epochInv_init : EpochInv {} {} where
  sent_le _ hk := absurd hk List.not_mem_nil
  once := Nat.zero_le 1
  fresh _ := ⟨List.not_mem_nil, rfl⟩
  waiting h := absurd h List.not_mem_nil

variable {m : EpochMonitor}

theorem EpochInv.message (h : s.EpochInv m) (d : DepthUpdate) :
    Along EpochMonitor.see NotOlder m (s.step (.message d)).2 ∧
      (next step s (.message d)).EpochInv (exec EpochMonitor.see m (s.step (.message d)).2) := by
  rw [next]
  cases hflag : s.book.hasReceivedFirstUpdate with
  | false =>
    obtain ⟨hnot, happlied⟩ := h.fresh hflag
    rw [step_message_first hflag]
    refine ⟨⟨trivial, trivial⟩, fun k hk => ?_, ?_, fun hc => absurd hc Bool.noConfusion,
      fun _ => ⟨rfl, happlied⟩⟩
    · rcases List.mem_append.mp hk with hmem | hmem
      · exact h.sent_le k hmem
      · exact (List.mem_singleton.mp hmem).le
    · rw [List.count_append, List.count_eq_zero_of_not_mem hnot, List.count_singleton_self]
  | true =>
    obtain ⟨hstate', hflag'⟩ := s.book.handleOrderBookUpdate_members d
    rw [step_message_later hflag]
    refine ⟨along_notOlder_of_no_publish (s.book.handleOrderBookUpdate_no_publish d) m, h.sent_le,
      h.once, fun hc => ?_, fun hmem => ?_⟩
    · exact absurd (hflag.symm.trans (hflag'.symm.trans hc)) Bool.noConfusion
    · -- while the request is out, a message is only buffered
      obtain ⟨hbuffering, happlied⟩ := h.waiting hmem
      refine ⟨hstate'.trans hbuffering, ?_⟩
      rw [BinanceOrderBook.handleOrderBookUpdate_buffering hbuffering]
      exact happlied

/-- A request that resumes and is not stale is the current one. -/
theorem EpochInv.current (h : s.EpochInv m) {i : ℕ} (hi : i < s.requests.length)
    {r : DepthResponse} (hstale : ¬ s.Stale (.response i r)) : s.requests[i] = s.epoch := by
  refine le_antisymm (h.sent_le _ (List.getElem_mem hi)) (not_lt.mp fun hlt => ?_)
  exact hstale ⟨_, List.getElem?_eq_getElem hi, hlt⟩

theorem EpochInv.response (h : s.EpochInv m) {i : ℕ} {r : DepthResponse}
    (hstale : ¬ s.Stale (.response i r)) :
    Along EpochMonitor.see NotOlder m (s.step (.response i r)).2 ∧
      (next step s (.response i r)).EpochInv
        (exec EpochMonitor.see m (s.step (.response i r)).2) := by
  rw [next]
  by_cases hi : i < s.requests.length
  · have hcur := h.current hi hstale
    have hmem : s.epoch ∈ s.requests := hcur ▸ List.getElem_mem hi
    obtain ⟨-, happlied⟩ := h.waiting hmem
    obtain ⟨effects, heffects, hnone⟩ := s.book.resumeWithSnapshot_effects r
    obtain ⟨hflag, -⟩ := s.book.resumeWithSnapshot_members r
    have hcount : (s.requests.eraseIdx i).count s.epoch = 0 := by
      have hperm := (List.getElem_cons_eraseIdx_perm hi).count_eq s.epoch
      rw [List.count_cons, hcur, beq_self_eq_true, if_pos rfl] at hperm
      have := h.once
      omega
    have hgone : s.epoch ∉ s.requests.eraseIdx i := List.count_eq_zero.mp hcount
    rw [step_response hi]
    refine ⟨?_, fun k hk => h.sent_le k (List.mem_of_mem_eraseIdx hk), hcount.le.trans zero_le_one,
      fun hf => ?_, fun hc => absurd hc hgone⟩
    · rw [heffects]
      refine ⟨?_, along_notOlder_of_no_publish hnone _⟩
      simp [NotOlder, happlied]
    · exact absurd hmem (h.fresh (hflag.symm.trans hf)).1
  · rw [step_response_none hi]
    exact ⟨trivial, h⟩

theorem EpochInv.reFetch (h : s.EpochInv m) :
    (next step s .reFetch).EpochInv (exec EpochMonitor.see m (s.step .reFetch).2) := by
  have hnew : s.epoch + 1 ∉ s.requests := fun hmem => absurd (h.sent_le _ hmem) (by omega)
  exact ⟨fun k hk => (h.sent_le k hk).trans (Nat.le_succ _),
    (List.count_eq_zero_of_not_mem hnew).le.trans zero_le_one, fun _ => ⟨hnew, rfl⟩,
    fun hc => absurd hc hnew⟩

/-- **One step without a stale resumption** goes forward and keeps the invariant. -/
theorem EpochInv.step (h : s.EpochInv m) {e : DepthEvent} (hstale : ¬ s.Stale e) :
    Along EpochMonitor.see NotOlder m (s.step e).2 ∧
      (next DepthSync.step s e).EpochInv (exec EpochMonitor.see m (s.step e).2) := by
  cases e with
  | message d => exact h.message d
  | response i r => exact h.response hstale
  | reFetch => exact ⟨⟨trivial, trivial⟩, h.reFetch⟩

/-- **Only a response goes live**, so without stale resumptions only the current one does. -/
theorem EpochInv.epochOk (h : s.EpochInv m) {e : DepthEvent} (hstale : ¬ s.Stale e) :
    s.EpochOk e := by
  refine ⟨fun hc => absurd hc hstale, fun hnot hsynced => ?_⟩
  rw [next] at hsynced
  cases e with
  | message d =>
    cases hflag : s.book.hasReceivedFirstUpdate with
    | false =>
      rw [step_message_first hflag] at hsynced
      exact SyncState.noConfusion hsynced
    | true =>
      rw [step_message_later hflag] at hsynced
      exact absurd ((s.book.handleOrderBookUpdate_members d).1.symm.trans hsynced) hnot
  | response i r =>
    by_cases hi : i < s.requests.length
    · rw [Current, List.getElem?_eq_getElem hi, h.current hi hstale]
    · rw [step_response_none hi] at hsynced
      exact absurd hsynced hnot
  | reFetch => exact SyncState.noConfusion hsynced

/-! ## Every run -/

/-- **Snapshot epochs, exactly.**  In every run from the initial state: stale resumptions are
ignored, only the current request goes live and no snapshot is older than an update applied in its
epoch, if and only if no request sent before a re-fetch resumes after it. -/
theorem snapshotEpochs_iff (es : List DepthEvent) :
    (Along (next step) EpochOk {} es ∧ Along EpochMonitor.see NotOlder {} (trace step {} es)) ↔
      Along (next step) (fun s e => ¬ s.Stale e) {} es := by
  have hwatch : ∀ P : DepthSync → DepthEvent → Prop,
      Along (watch step EpochMonitor.see) (fun p e => P p.1 e)
        (({} : DepthSync), ({} : EpochMonitor)) es ↔ Along (next step) P {} es :=
    fun P => along_watch _ _ es
  have hkeep : ∀ (p : DepthSync × EpochMonitor) e, p.1.EpochInv p.2 → ¬ p.1.Stale e →
      (watch step EpochMonitor.see p e).1.EpochInv (watch step EpochMonitor.see p e).2 :=
    fun p e hI hstale => (hI.step hstale).2
  constructor
  · rintro ⟨hok, -⟩
    exact along_of_invariant (I := fun _ => True) (fun _ _ _ _ => trivial)
      (fun s e _ hstep hstale => hstale.not_ignored (hstep.1 hstale)) trivial hok
  · intro hfresh
    have hfresh' := (hwatch fun s e => ¬ s.Stale e).mpr hfresh
    refine ⟨(hwatch EpochOk).mp ?_, (along_trace _ _ es).mpr ?_⟩
    · exact along_of_invariant (I := fun p : DepthSync × EpochMonitor => p.1.EpochInv p.2) hkeep
        (fun p e hI hstale => hI.epochOk hstale) epochInv_init hfresh'
    · exact along_of_invariant (I := fun p : DepthSync × EpochMonitor => p.1.EpochInv p.2) hkeep
        (fun p e hI hstale => (hI.step hstale).1) epochInv_init hfresh'

/-- The request of the first connection is still out when the second one goes live. -/
def twoConnections : List DepthEvent :=
  [.message { U := 1, u := 5, pu := 0 }, .reFetch, .message { U := 8, u := 12, pu := 7 },
    .response 1 { lastUpdateId := 10 }]

/-- **The old snapshot is published** when the first request resumes, over a newer update. -/
theorem stale_response_goes_back :
    ¬ Along (next step) EpochOk {} (twoConnections ++ [.response 0 { lastUpdateId := 4 }]) ∧
      ¬ Along EpochMonitor.see NotOlder {}
        (trace step {} (twoConnections ++ [.response 0 { lastUpdateId := 4 }])) := by
  refine ⟨fun h => ?_, by decide⟩
  have hstale : (exec (next step) {} twoConnections).Stale (.response 0 { lastUpdateId := 4 }) :=
    ⟨0, by decide, by decide⟩
  exact hstale.not_ignored ((along_split h).1 hstale)

end DepthSync

end TradingEngine
