import TradingEngine.Machinery.Parallel
import TradingEngine.Metric.LatencyStats

/-!
# Metric/FlowMetric — records and percentiles side by side

All threads that hand a task to one event base from another record into one `FlowMetric`, and the
monitoring page reads it at any time.  The members are relaxed atomics: the updates of a call take
effect one by one, in any order (`Recordings.step`), and `percentile` loads one bucket after
another.  A `fetch_add` is one atomic step; the maximum is a loop of loads and exchanges, and an
exchange may fail for no reason.

The loop comes to one atomic maximum (`refines`), so that the calls are updates of cells as
`Machinery/Parallel` has them.

* **`settled_of_run`** — when every call has returned, the metric is what the calls make one after
  the other, in whatever order.
* **`percentile_of_run`** — a percentile taken meanwhile is one of recorded delays: of all those
  recorded before it began, and of none recorded after it ended.
-/

namespace TradingEngine

open Run Parallel

/-- `FlowMetric`; the place in the source that it is for does not change. -/
structure FlowMetric extends LatencyStats where
  bytes : BitVec 64 := 0

/-- The arguments of `record`. -/
structure Sample where
  delayNs : BitVec 64
  byteCount : BitVec 64
  deriving DecidableEq

namespace FlowMetric

/-- `record`, by itself. -/
def record (m : FlowMetric) (x : Sample) : FlowMetric where
  toLatencyStats := m.toLatencyStats.record x.delayNs
  bytes := m.bytes + x.byteCount

/-- A sequence of `record` calls on a new metric. -/
def recordAll (xs : List Sample) : FlowMetric := xs.foldl record {}

/-- The members that `record` adds to by `fetch_add`. -/
inductive Counter
  | buckets
  | totalDelayNs
  | count
  | bytes
  deriving DecidableEq

/-- The `fetch_add` of a call. -/
def fetchAdd (m : FlowMetric) (x : Sample) : Counter → FlowMetric
  | .buckets =>
    let i := (LatencyStats.bucketIndex x.delayNs).toNat
    { m with buckets := m.buckets.setIfInBounds i (m.bucket i + 1) }
  | .totalDelayNs => { m with totalDelayNs := m.totalDelayNs + x.delayNs }
  | .count => { m with count := m.count + 1 }
  | .bytes => { m with bytes := m.bytes + x.byteCount }

end FlowMetric

/-! ## Calls of `record` -/

/-- The parts of a call: its four additions and the loop on the maximum. -/
inductive Part
  | add (counter : FlowMetric.Counter)
  | maximum
  deriving DecidableEq

namespace Part

def all : List Part := [.add .buckets, .add .totalDelayNs, .maximum, .add .count, .add .bytes]

theorem mem_all (p : Part) : p ∈ all := by
  rcases p with (_ | _ | _ | _) | _ <;> decide

end Part

/-- A call of `record`: the parts it is past, and the `old_max` of its loop once it is loaded. -/
structure Recording where
  sample : Sample
  done : Part → Bool := fun _ => false
  oldMax : Option (BitVec 64) := none

namespace Recording

/-- The call is past the part. -/
def finish (c : Recording) (p : Part) : Recording :=
  { c with done := Function.update c.done p true }

def returned (c : Recording) : Bool := Part.all.all c.done

end Recording

/-- What happens: a thread calls `record`, or the `k`-th call takes a step. -/
inductive RecordEvent
  | call (x : Sample)
  | fetchAdd (k : ℕ) (counter : FlowMetric.Counter)
  | load (k : ℕ)
  | exchange (k : ℕ) (spurious : Bool)

/-- The metric and the calls so far. -/
structure Recordings where
  metric : FlowMetric := {}
  calls : List Recording := []

namespace Recordings

/-- The `k`-th call leaves the metric and itself as given. -/
def put (s : Recordings) (k : ℕ) (metric : FlowMetric) (c : Recording) : Recordings :=
  ⟨metric, s.calls.set k c⟩

/-- A turn of the loop: `delay_ns > old_max && !compare_exchange_weak(old_max, delay_ns)`. -/
def stepLoop (s : Recordings) (k : ℕ) (spurious : Bool) (c : Recording) (oldMax : BitVec 64) :
    Recordings :=
  if oldMax < c.sample.delayNs then
    if s.metric.maxDelayNs = oldMax ∧ ¬ spurious then
      s.put k { s.metric with maxDelayNs := c.sample.delayNs } (c.finish .maximum)
    else s.put k s.metric { c with oldMax := some s.metric.maxDelayNs }
  else s.put k s.metric (c.finish .maximum)

/-- A step of a call. -/
def stepCall (s : Recordings) (c : Recording) : RecordEvent → Recordings
  | .call _ => s
  | .fetchAdd k counter =>
    if c.done (.add counter) then s
    else s.put k (s.metric.fetchAdd c.sample counter) (c.finish (.add counter))
  | .load k =>
    if c.oldMax = none then s.put k s.metric { c with oldMax := some s.metric.maxDelayNs } else s
  | .exchange k spurious =>
    if c.done .maximum then s else c.oldMax.elim s (s.stepLoop k spurious c)

/-- One step. -/
def step (s : Recordings) : RecordEvent → Recordings
  | .call x => { s with calls := s.calls ++ [{ sample := x }] }
  | e@(.fetchAdd k _) | e@(.load k) | e@(.exchange k _) =>
    s.calls[k]?.elim s fun c => s.stepCall c e

/-- The samples of all calls. -/
def made (s : Recordings) : List Sample := s.calls.map Recording.sample

/-- The samples of the calls that have returned. -/
def returned (s : Recordings) : List Sample :=
  (s.calls.filter Recording.returned).map Recording.sample

end Recordings

/-! ## The cells -/

/-- The atomic words of a metric. -/
inductive Cell
  | bucket (i : Fin 496)
  | totalDelayNs
  | maxDelayNs
  | count
  | bytes
  deriving DecidableEq

namespace FlowMetric

/-- A load. -/
def load (m : FlowMetric) : Cell → BitVec 64
  | .bucket i => m.bucket i
  | .totalDelayNs => m.totalDelayNs
  | .maxDelayNs => m.maxDelayNs
  | .count => m.count
  | .bytes => m.bytes

/-- What a call does to each word. -/
def update : Cell → Sample → BitVec 64 → BitVec 64
  | .bucket i, x, n => if Histogram.index 3 x.delayNs.toNat = i then n + 1 else n
  | .totalDelayNs, x, n => n + x.delayNs
  | .maxDelayNs, x, n => if n < x.delayNs then x.delayNs else n
  | .count, _, n => n + 1
  | .bytes, x, n => n + x.byteCount

/-- The part that updates a word. -/
def part : Cell → Part
  | .bucket _ => .add .buckets
  | .totalDelayNs => .add .totalDelayNs
  | .maxDelayNs => .maximum
  | .count => .add .count
  | .bytes => .add .bytes

theorem update_comm (cell : Cell) (x y : Sample) (n : BitVec 64) :
    update cell x (update cell y n) = update cell y (update cell x n) := by
  cases cell with
  | bucket i => simp only [update]; split_ifs <;> rfl
  | totalDelayNs => simp only [update]; ac_rfl
  | maxDelayNs => simp only [update]; split_ifs <;> bv_omega
  | count => rfl
  | bytes => simp only [update]; ac_rfl

theorem le_update_max (x : Sample) (n : BitVec 64) : n ≤ update .maxDelayNs x n := by
  rw [update]
  split_ifs <;> bv_omega

/-- **`record` as updates of words.** -/
def procedure : Procedure Part Cell Sample (BitVec 64) where
  part := part
  update := update
  comm := update_comm

/-- **A `fetch_add` of a call is one part of it.** -/
theorem load_fetchAdd (m : FlowMetric) (x : Sample) (counter : Counter) :
    (m.fetchAdd x counter).load = procedure.effect (.add counter) x m.load := by
  funext cell
  cases cell with
  | bucket i =>
    cases counter with
    | buckets => exact m.toLatencyStats.bucket_record x.delayNs i.isLt
    | _ => rfl
  | _ => cases counter <;> rfl

/-- **The exchange of a call, when it succeeds, is its maximum.** -/
theorem load_exchange {m : FlowMetric} {x : Sample} (hlt : m.maxDelayNs < x.delayNs) :
    ({ m with maxDelayNs := x.delayNs } : FlowMetric).load =
      procedure.effect .maximum x m.load := by
  funext cell
  cases cell with
  | maxDelayNs => exact (if_pos hlt).symm
  | _ => rfl

/-- **So is leaving the loop without one.** -/
theorem load_leave {m : FlowMetric} {x : Sample} (hle : ¬ m.maxDelayNs < x.delayNs) :
    m.load = procedure.effect .maximum x m.load := by
  funext cell
  cases cell with
  | maxDelayNs => exact (if_neg hle).symm
  | _ => rfl

/-- `record` by itself updates every word. -/
theorem load_record (m : FlowMetric) (x : Sample) (cell : Cell) :
    (m.record x).load cell = update cell x (m.load cell) := by
  cases cell with
  | bucket i => exact m.toLatencyStats.bucket_record x.delayNs i.isLt
  | _ => rfl

theorem toLatencyStats_recordAll (xs : List Sample) :
    (recordAll xs).toLatencyStats = LatencyStats.recordAll (xs.map Sample.delayNs) := by
  rw [recordAll, LatencyStats.recordAll, List.foldl_map]
  exact (List.foldl_hom FlowMetric.toLatencyStats (by intros; rfl)).symm

theorem load_recordAll (xs : List Sample) (cell : Cell) :
    (recordAll xs).load cell = procedure.fold cell xs (load {} cell) := by
  induction xs using List.reverseRecOn with
  | nil => rfl
  | append_singleton xs x ih =>
    rw [procedure.fold_perm List.perm_append_comm, recordAll, List.foldl_append]
    exact (load_record _ x cell).trans (congrArg (update cell x) ih)

theorem buckets_eq {m m' : FlowMetric} (h : ∀ i, m.load (.bucket i) = m'.load (.bucket i)) :
    m.buckets = m'.buckets := by
  ext i hi : 1
  simpa [load, LatencyStats.bucket, hi] using h ⟨i, hi⟩

/-- The words are all there is. -/
theorem ext_load {m m' : FlowMetric} (h : ∀ cell, m.load cell = m'.load cell) : m = m' := by
  obtain ⟨⟨buckets, count, totalDelayNs, maxDelayNs⟩, bytes⟩ := m
  obtain ⟨⟨buckets', count', totalDelayNs', maxDelayNs'⟩, bytes'⟩ := m'
  obtain rfl : buckets = buckets' := buckets_eq fun i => h (.bucket i)
  obtain rfl : count = count' := h .count
  obtain rfl : totalDelayNs = totalDelayNs' := h .totalDelayNs
  obtain rfl : maxDelayNs = maxDelayNs' := h .maxDelayNs
  obtain rfl : bytes = bytes' := h .bytes
  rfl

end FlowMetric

/-! ## The loop is one atomic maximum -/

namespace Recordings

open FlowMetric

variable {s t m : Recordings} {k : ℕ} {c : Recording}

/-- The call without its loop. -/
def toCall (c : Recording) : Parallel.Call Part Sample := ⟨c.sample, c.done⟩

/-- The words, and which parts of the calls are done. -/
def toCells (s : Recordings) : State Part Cell Sample (BitVec 64) :=
  ⟨s.metric.load, s.calls.map toCall⟩

/-- What a loop has loaded is not above the maximum: the maximum only grows. -/
def Loaded (s : Recordings) : Prop := ∀ c ∈ s.calls, ∀ n ∈ c.oldMax, n ≤ s.metric.maxDelayNs

/-- What a step may do. -/
inductive Move (s : Recordings) : Recordings → Prop
  | stays : Move s s
  | comes (x : Sample) : Move s { s with calls := s.calls ++ [{ sample := x }] }
  | loads {k : ℕ} {c : Recording} (hk : s.calls[k]? = some c) :
    Move s (s.put k s.metric { c with oldMax := some s.metric.maxDelayNs })
  | finishes {k : ℕ} {c : Recording} {p : Part} {metric : FlowMetric}
      (hk : s.calls[k]? = some c) (hdone : c.done p = false)
      (hmetric : metric.load = procedure.effect p c.sample s.metric.load) :
    Move s (s.put k metric (c.finish p))

/-- **A turn of the loop** ends it with the maximum of what was there and the delay, or loads it
again. -/
theorem move_stepLoop (hk : s.calls[k]? = some c) (hdone : c.done .maximum = false)
    {oldMax : BitVec 64} (hle : oldMax ≤ s.metric.maxDelayNs) (spurious : Bool) :
    Move s (s.stepLoop k spurious c oldMax) := by
  rw [stepLoop]
  split_ifs with hlt hswap
  · refine .finishes hk hdone (load_exchange ?_)
    rw [hswap.1]
    exact hlt
  · exact .loads hk
  · -- the maximum has only grown since it was loaded
    refine .finishes hk hdone (load_leave fun hmax => hlt ?_)
    bv_omega

theorem move_stepCall (hs : s.Loaded) (hk : s.calls[k]? = some c) :
    (∀ counter, Move s (s.stepCall c (.fetchAdd k counter))) ∧ Move s (s.stepCall c (.load k)) ∧
      ∀ spurious, Move s (s.stepCall c (.exchange k spurious)) := by
  refine ⟨fun counter => ?_, ?_, fun spurious => ?_⟩
  · rw [stepCall]
    split_ifs with hdone
    · exact .stays
    · exact .finishes hk (Bool.not_eq_true _ ▸ hdone) (load_fetchAdd _ _ _)
  · rw [stepCall]
    split_ifs
    · exact .loads hk
    · exact .stays
  · rw [stepCall]
    split_ifs with hdone
    · exact .stays
    · rcases hold : c.oldMax with _ | n
      · exact .stays
      · have hle := hs c (List.mem_of_getElem? hk) n hold
        exact move_stepLoop hk (Bool.not_eq_true _ ▸ hdone) hle spurious

theorem move_step (hs : s.Loaded) (e : RecordEvent) : Move s (s.step e) := by
  have helim : ∀ (k : ℕ) (e : RecordEvent), (∀ c, s.calls[k]? = some c → Move s (s.stepCall c e)) →
      Move s (s.calls[k]?.elim s fun c => s.stepCall c e) := by
    intro k e h
    rcases hk : s.calls[k]? with _ | c
    · exact .stays
    · exact h c hk
  cases e with
  | call x => exact .comes x
  | fetchAdd k counter => exact helim k _ fun c hk => (move_stepCall hs hk).1 counter
  | load k => exact helim k _ fun c hk => (move_stepCall hs hk).2.1
  | exchange k spurious => exact helim k _ fun c hk => (move_stepCall hs hk).2.2 spurious

theorem loaded_of_move (h : Move s t) (hs : s.Loaded) : t.Loaded := by
  cases h with
  | stays => exact hs
  | comes x =>
    intro c hc n hn
    rcases List.mem_append.mp hc with hc | hc
    · exact hs c hc n hn
    · rw [List.mem_singleton.mp hc] at hn
      cases hn
  | @loads k c hk =>
    intro d hd n hn
    rcases List.mem_or_eq_of_mem_set hd with hd | rfl
    · exact hs d hd n hn
    · obtain rfl : s.metric.maxDelayNs = n := Option.some.inj hn
      exact BitVec.le_refl _
  | @finishes k c p metric hk hdone hmetric =>
    have hmax : s.metric.maxDelayNs ≤ metric.maxDelayNs := by
      have hload : metric.maxDelayNs = procedure.effect p c.sample s.metric.load .maxDelayNs :=
        congrFun hmetric .maxDelayNs
      rw [hload, Procedure.effect]
      split_ifs
      · exact le_update_max _ _
      · exact BitVec.le_refl _
    intro d hd n hn
    refine BitVec.le_trans ?_ hmax
    rcases List.mem_or_eq_of_mem_set hd with hd | rfl
    · exact hs d hd n hn
    · exact hs c (List.mem_of_getElem? hk) n hn

/-- A call that only loads the maximum. -/
theorem toCells_put_loaded (hk : s.calls[k]? = some c) (n : BitVec 64) :
    (s.put k s.metric { c with oldMax := some n }).toCells = s.toCells := by
  obtain ⟨pre, post, hcalls, hset⟩ := Procedure.exists_split hk
  rw [toCells, put, hset, toCells, hcalls, List.map_append, List.map_append]
  rfl

/-- A call that is past one more part. -/
theorem toCells_put_finish (hk : s.calls[k]? = some c) {p : Part} (hdone : c.done p = false)
    {metric : FlowMetric} (hmetric : metric.load = procedure.effect p c.sample s.metric.load) :
    (s.put k metric (c.finish p)).toCells = procedure.step s.toCells (.effect k p) := by
  have hcall : s.toCells.calls[k]? = some (toCall c) := by
    rw [toCells, List.getElem?_map, hk]
    rfl
  have hfalse : (toCall c).done p = false := hdone
  rw [Procedure.step, hcall]
  simp only [hfalse, Bool.false_eq_true, if_false]
  rw [toCells, put, hmetric, List.map_set]
  rfl

/-- **A step is a step of the abstract calls, or none.** -/
theorem leads_of_move (h : Move s t) : Leads procedure.step s.toCells t.toCells := by
  cases h with
  | stays => exact ⟨[], rfl⟩
  | comes x => exact ⟨[.call x], by simp [toCells, Procedure.step, toCall]⟩
  | loads hk => exact ⟨[], (toCells_put_loaded hk _).symm⟩
  | finishes hk hdone hmetric => exact ⟨[.effect _ _], (toCells_put_finish hk hdone hmetric).symm⟩

/-- **The calls refine calls with an atomic maximum.** -/
theorem refines (hs : s.Loaded) (es : List RecordEvent) :
    (exec step s es).Loaded ∧ Leads procedure.step s.toCells (exec step s es).toCells := by
  refine exec_of_forall
    (I := fun t : Recordings => t.Loaded ∧ Leads procedure.step s.toCells t.toCells) ?_
    ⟨hs, [], rfl⟩ es
  rintro t e ⟨ht, hlead⟩
  have hmove := move_step ht e
  exact ⟨loaded_of_move hmove ht, hlead.trans (leads_of_move hmove)⟩

/-! ## Whole runs -/

theorem leads_of_run (es fs : List RecordEvent) :
    Leads procedure.step (exec step {} es).toCells (exec step {} (es ++ fs)).toCells := by
  rw [exec_append]
  exact (refines (refines (by rintro c hc; cases hc) es).1 fs).2

theorem holds_of_run (es : List RecordEvent) :
    procedure.Holds (load {}) (exec step {} es).toCells :=
  Procedure.cell_of_leads (fun _ => rfl) (leads_of_run [] es)

theorem made_toCells (s : Recordings) : s.toCells.made = s.made := by
  rw [State.made, toCells, List.map_map]
  rfl

theorem returned_toCells (s : Recordings) : s.toCells.returned Part.all = s.returned := by
  rw [State.returned, toCells, List.filter_map, List.map_map]
  rfl

/-- **When every call has returned, the metric is what the calls make one after the other**, in
whatever order. -/
theorem settled_of_run {es : List RecordEvent}
    (hall : ∀ c ∈ (exec step {} es).calls, c.returned = true) {xs : List Sample}
    (hxs : xs.Perm (exec step {} es).made) : (exec step {} es).metric = recordAll xs := by
  refine ext_load fun cell => ?_
  have hpart : procedure.part cell ∈ Part.all := Part.mem_all _
  rw [load_recordAll]
  refine Procedure.settled_of_leads (fun _ => rfl) (leads_of_run [] es) hpart ?_
    (made_toCells _ ▸ hxs)
  intro c hc p hp
  obtain ⟨d, hd, rfl⟩ := List.mem_map.mp hc
  exact List.all_eq_true.mp (hall d hd) p hp

/-- Two calls at a time; the first one loses the exchange and loads the maximum again. -/
def overlappingRun : List RecordEvent :=
  [.call ⟨5, 1⟩, .call ⟨9, 2⟩, .load 0, .fetchAdd 1 .buckets, .load 1, .exchange 1 true,
    .exchange 1 false, .exchange 0 false, .exchange 0 false, .fetchAdd 0 .count,
    .fetchAdd 0 .buckets, .fetchAdd 1 .bytes, .fetchAdd 1 .totalDelayNs, .fetchAdd 0 .totalDelayNs,
    .fetchAdd 0 .bytes, .fetchAdd 1 .count]

theorem overlappingRun_settled :
    (∀ c ∈ (exec step {} overlappingRun).calls, c.returned = true) ∧
      (exec step {} overlappingRun).metric = recordAll [⟨9, 2⟩, ⟨5, 1⟩] := by
  have hall : ∀ c ∈ (exec step {} overlappingRun).calls, c.returned = true := by decide
  exact ⟨hall, settled_of_run hall (.swap _ _ _)⟩

/-- **A load** finds what calls make of the word: those that had returned before the run `fs`, and
none that are made after it. -/
theorem load_of_run {es fs gs : List RecordEvent} (hgs : gs <+: fs) (cell : Cell) :
    ∃ xs, (exec step {} es).returned.Subperm xs ∧ xs.Subperm (exec step {} (es ++ fs)).made ∧
      (exec step {} (es ++ gs)).metric.load cell = (recordAll xs).load cell := by
  obtain ⟨hs, rfl⟩ := hgs
  have hlead := leads_of_run (es ++ gs) hs
  rw [List.append_assoc] at hlead
  obtain ⟨xs, hlow, hhigh, hcell⟩ := Procedure.between_of_leads (holds_of_run es)
    (Part.mem_all (procedure.part cell)) (leads_of_run es gs) hlead
  rw [returned_toCells] at hlow
  rw [made_toCells] at hhigh
  exact ⟨xs, hlow, hhigh, hcell.trans (load_recordAll xs cell).symm⟩

/-! ## Percentiles -/

/-- The bucket of a call. -/
def home (x : Sample) : Cell :=
  .bucket ⟨Histogram.index 3 x.delayNs.toNat, LatencyStats.bucketIndex_lt x.delayNs⟩

/-- All buckets. -/
def bucketCells : List Cell := (List.finRange 496).map .bucket

theorem mem_bucketCells (i : Fin 496) : .bucket i ∈ bucketCells :=
  List.mem_map_of_mem (List.mem_finRange i)

theorem nodup_bucketCells : bucketCells.Nodup :=
  (List.nodup_finRange 496).map fun _ _ h => Cell.bucket.inj h

/-- A call counts in its own bucket only. -/
theorem update_of_home_ne {cell : Cell} (hcell : cell ∈ bucketCells) (x : Sample)
    (hx : home x ≠ cell) (n : BitVec 64) : update cell x n = n := by
  obtain ⟨i, -, rfl⟩ := List.mem_map.mp hcell
  exact if_neg fun h => hx (congrArg Cell.bucket (Fin.ext h))

theorem subperm_map {xs ys : List Sample} (h : xs.Subperm ys) :
    (xs.map Sample.delayNs).Subperm (ys.map Sample.delayNs) := by
  obtain ⟨l, hl, hsub⟩ := h
  exact ⟨_, hl.map _, hsub.map _⟩

/-- **A percentile taken while calls go on** is one of recorded delays: all those whose calls had
returned before the run `fs` in which it loads the buckets, and none whose calls are made after it.
Each bucket is loaded at some moment `gs` of that run. -/
theorem percentile_of_run {es fs : List RecordEvent} {snapshot : Vector (BitVec 64) 496}
    (hload : ∀ i (hi : i < 496), ∃ gs, gs <+: fs ∧
      snapshot[i] = (exec step {} (es ++ gs)).metric.bucket i) :
    ∃ ds, ((exec step {} es).returned.map Sample.delayNs).Subperm ds ∧
      ds.Subperm ((exec step {} (es ++ fs)).made.map Sample.delayNs) ∧
      ∀ p, ({ buckets := snapshot } : LatencyStats).percentile p =
        (LatencyStats.recordAll ds).percentile p := by
  let found : FlowMetric := { buckets := snapshot }
  have hread : ∀ cell ∈ bucketCells, ∃ m, Leads procedure.step (exec step {} es).toCells m ∧
      Leads procedure.step m (exec step {} (es ++ fs)).toCells ∧
        found.load cell = m.cells cell := by
    intro cell hcell
    obtain ⟨i, -, rfl⟩ := List.mem_map.mp hcell
    obtain ⟨gs, ⟨hs, rfl⟩, hi⟩ := hload i i.isLt
    refine ⟨_, leads_of_run es gs, ?_, ?_⟩
    · rw [← List.append_assoc]
      exact leads_of_run (es ++ gs) hs
    · refine Eq.trans ?_ hi
      simp [found, load, LatencyStats.bucket]
  obtain ⟨xs, hlow, hhigh, hfold⟩ := Procedure.snapshot_of_leads (holds_of_run es)
    nodup_bucketCells (fun cell _ => Part.mem_all (part cell))
    (fun x => mem_bucketCells _) (fun cell hcell x hx => update_of_home_ne hcell x hx) hread
  rw [returned_toCells] at hlow
  rw [made_toCells] at hhigh
  have hbuckets : found.buckets = (recordAll xs).buckets := buckets_eq fun i =>
    (hfold _ (mem_bucketCells i)).trans (load_recordAll xs _).symm
  refine ⟨xs.map Sample.delayNs, subperm_map hlow, subperm_map hhigh, fun p => ?_⟩
  rw [← toLatencyStats_recordAll]
  exact LatencyStats.percentile_congr hbuckets p

/-- One call after the other, while a reader is at the buckets. -/
def callsInTurn : List RecordEvent :=
  [.call ⟨5, 0⟩, .fetchAdd 0 .buckets, .call ⟨9, 0⟩, .fetchAdd 1 .buckets]

/-- The reader is past the bucket of the first call before that call comes, and at the bucket of the
second one behind it. -/
def torn : Vector (BitVec 64) 496 :=
  .ofFn fun i => (exec step {} (if i < 9 then [] else callsInTurn)).metric.bucket i

theorem torn_percentile :
    ∃ ds, ((exec step {} []).returned.map Sample.delayNs).Subperm ds ∧
      ds.Subperm ((exec step {} ([] ++ callsInTurn)).made.map Sample.delayNs) ∧
      ∀ p, ({ buckets := torn } : LatencyStats).percentile p =
        (LatencyStats.recordAll ds).percentile p :=
  percentile_of_run fun i hi => by
    refine ⟨if i < 9 then [] else callsInTurn, ?_, ?_⟩
    · split_ifs
      · exact List.nil_prefix
      · exact List.prefix_rfl
    · rw [torn, Vector.getElem_ofFn]
      rfl

end Recordings

end TradingEngine
