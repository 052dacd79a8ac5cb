import Mathlib.Algebra.Order.Field.Rat
import Mathlib.Logic.Function.Basic
import TradingEngine.Machinery.Arrangement

/-!
# Metric/PipelineTiming — the total time of a trace

`update_pipeline_timing` sorts the recorded stages of a trace and takes the start of the first and
the end of the last one for the total.  A stage precedes another one if it starts and ends before
it, so a stage inside another one may stand on either side of it: `totals_iff` says for which traces
the total is right however the stages are sorted.
-/

namespace TradingEngine

open Arrangement

/-- `PipelineStage`. -/
inductive PipelineStage
  | receiveData
  | parseJson
  | orderBookUpdate
  | pricingUpdate
  | riskUpdate
  | orderUpdate
  | strategyUpdate
  | sendOrder
  | totalStages
  deriving DecidableEq, Repr

/-- `ScopeTiming`; `stop` is its `end`. -/
structure ScopeTiming where
  start : UInt64
  stop : UInt64
  ticks : UInt64
  ns : ℚ
  us : ℚ
  stage : PipelineStage
  deriving DecidableEq

/-- The timings of a trace: `field<Stage>[id.value]`. -/
abbrev StageTimings := PipelineStage → ScopeTiming

namespace PipelineTraceBuffer

/-- The stages that `for_each_stage` goes over, in their order. -/
def stages : List PipelineStage :=
  [.receiveData, .parseJson, .orderBookUpdate, .pricingUpdate, .riskUpdate, .orderUpdate,
    .strategyUpdate, .sendOrder]

/-- A timing was recorded. -/
def IsRecorded (timing : ScopeTiming) : Prop := timing.start ≠ 0 ∧ timing.stop ≠ 0

instance (timing : ScopeTiming) : Decidable (IsRecorded timing) :=
  inferInstanceAs (Decidable (_ ∧ _))

/-- The loop writes the stage into each recorded timing. -/
def named (field : StageTimings) (stage : PipelineStage) : ScopeTiming :=
  if IsRecorded (field stage) then { field stage with stage := stage } else field stage

/-- `pipeline_timings`, for the stages as they are listed. -/
def pipelineTimings (listing : List PipelineStage) (field : StageTimings) : List ScopeTiming :=
  (listing.filter fun stage => IsRecorded (field stage)).map (named field)

/-- The comparator. -/
def Precedes (a b : ScopeTiming) : Prop := a.start < b.start ∧ a.stop < b.stop

instance : DecidableRel Precedes := fun _ _ => inferInstanceAs (Decidable (_ ∧ _))

/-- The total from the start of one timing to the end of another one. -/
def total (tscGhz : ℚ) (timing first last : ScopeTiming) : ScopeTiming :=
  let ticks := last.stop - first.start
  { timing with
    start := first.start
    stop := last.stop
    ticks := ticks
    ns := ticks.toNat / tscGhz
    us := ticks.toNat / tscGhz / 1000 }

/-- **`update_pipeline_timing`** of a stage; `sort` is what `std::sort` makes of the timings. -/
def updatePipelineTiming (sort : List ScopeTiming → List ScopeTiming) (tscGhz : ℚ)
    (listing : List PipelineStage) (name : PipelineStage) (field : StageTimings) : StageTimings :=
  let timings := pipelineTimings listing field
  let timing := named field name
  if timings = [] then named field
  else
    let sorted := sort timings
    Function.update (named field) name
      (total tscGhz timing (sorted.getD 0 timing) (sorted.getD (timings.length - 1) timing))

/-! ## What is asked of a total -/

/-- A total goes from the first start to the last end. -/
structure Spans (timings : List ScopeTiming) (total : ScopeTiming) : Prop where
  start_le : ∀ timing ∈ timings, total.start ≤ timing.start
  start_mem : ∃ timing ∈ timings, timing.start = total.start
  le_stop : ∀ timing ∈ timings, timing.stop ≤ total.stop
  stop_mem : ∃ timing ∈ timings, timing.stop = total.stop

/-- **The total of a trace is right**, however the stages are listed and sorted. -/
def TotalSound (tscGhz : ℚ) (name : PipelineStage) (field : StageTimings) : Prop :=
  ∀ listing, listing.Perm stages →
    StrictWeak Precedes (pipelineTimings listing field) ∧
      ∀ sort, Sorts sort Precedes (pipelineTimings listing field) →
        pipelineTimings listing field ≠ [] →
          Spans (pipelineTimings listing field)
            (updatePipelineTiming sort tscGhz listing name field name)

/-- Of any two recorded stages that follow each other each third one follows the first or comes
before the second; a stage that does not start first follows one, and a stage that does not end last
comes before one. -/
structure InSequence (field : StageTimings) : Prop where
  between : ∀ a ∈ stages, ∀ b ∈ stages, ∀ c ∈ stages, IsRecorded (field a) →
    IsRecorded (field b) → IsRecorded (field c) → Precedes (field a) (field c) →
      Precedes (field a) (field b) ∨ Precedes (field b) (field c)
  follows : ∀ a ∈ stages, ∀ b ∈ stages, IsRecorded (field a) → IsRecorded (field b) →
    (field b).start < (field a).start →
      ∃ c ∈ stages, IsRecorded (field c) ∧ Precedes (field c) (field a)
  leads : ∀ a ∈ stages, ∀ b ∈ stages, IsRecorded (field a) → IsRecorded (field b) →
    (field a).stop < (field b).stop →
      ∃ c ∈ stages, IsRecorded (field c) ∧ Precedes (field a) (field c)

/-! ## The comparator -/

theorem precedes_irrefl (a : ScopeTiming) : ¬ Precedes a a := fun h => UInt64.lt_irrefl _ h.1

theorem precedes_trans (a b c : ScopeTiming) (hab : Precedes a b) (hbc : Precedes b c) :
    Precedes a c := ⟨UInt64.lt_trans hab.1 hbc.1, UInt64.lt_trans hab.2 hbc.2⟩

section Totals

variable {tscGhz : ℚ} {listing : List PipelineStage} {name stage : PipelineStage}
  {field : StageTimings} {a b : ScopeTiming} {sort : List ScopeTiming → List ScopeTiming}

/-- The name of a stage is not compared. -/
theorem named_eq (field : StageTimings) (stage : PipelineStage) :
    (named field stage).start = (field stage).start ∧
      (named field stage).stop = (field stage).stop := by
  rw [named]
  split <;> exact ⟨rfl, rfl⟩

theorem precedes_named (field : StageTimings) (a b : PipelineStage) :
    Precedes (named field a) (named field b) ↔ Precedes (field a) (field b) := by
  rw [Precedes, Precedes, (named_eq field a).1, (named_eq field a).2, (named_eq field b).1,
    (named_eq field b).2]

/-- The recorded stages, however they are listed. -/
theorem mem_pipelineTimings (hlisting : listing.Perm stages) :
    a ∈ pipelineTimings listing field ↔
      ∃ stage ∈ stages, IsRecorded (field stage) ∧ named field stage = a := by
  simp only [pipelineTimings, List.mem_map, List.mem_filter, decide_eq_true_eq,
    hlisting.mem_iff, and_assoc]

/-! ## The total -/

theorem update_start (sort : List ScopeTiming → List ScopeTiming) (tscGhz : ℚ)
    (hne : pipelineTimings listing field ≠ []) {r : List ScopeTiming}
    (hsort : sort (pipelineTimings listing field) = a :: r) :
    (updatePipelineTiming sort tscGhz listing name field name).start = a.start := by
  rw [updatePipelineTiming]
  dsimp only
  rw [if_neg hne, Function.update_self, hsort]
  rfl

theorem update_stop (sort : List ScopeTiming → List ScopeTiming) (tscGhz : ℚ)
    (hne : pipelineTimings listing field ≠ []) {r : List ScopeTiming}
    (hsort : sort (pipelineTimings listing field) = r ++ [b])
    (hperm : (r ++ [b]).Perm (pipelineTimings listing field)) :
    (updatePipelineTiming sort tscGhz listing name field name).stop = b.stop := by
  have hlength := hperm.length_eq
  rw [List.length_append, List.length_singleton] at hlength
  have hlast : (r ++ [b]).getD ((pipelineTimings listing field).length - 1) (named field name) =
      b := by
    rw [← hlength, Nat.add_sub_cancel, List.getD_eq_getElem?_getD, List.getElem?_concat_length]
    rfl
  rw [updatePipelineTiming]
  dsimp only
  rw [if_neg hne, Function.update_self, hsort, hlast]
  rfl

/-! ## Stages in sequence -/

/-- The stage that follows none starts first. -/
theorem InSequence.start_le (h : InSequence field) (hlisting : listing.Perm stages)
    (ha : a ∈ pipelineTimings listing field)
    (hfirst : ∀ c ∈ pipelineTimings listing field, ¬ Precedes c a)
    (hb : b ∈ pipelineTimings listing field) : a.start ≤ b.start := by
  obtain ⟨x, hx, hxrecorded, rfl⟩ := (mem_pipelineTimings hlisting).mp ha
  obtain ⟨y, hy, hyrecorded, rfl⟩ := (mem_pipelineTimings hlisting).mp hb
  rw [← UInt64.not_lt, (named_eq field x).1, (named_eq field y).1]
  intro hlt
  obtain ⟨z, hz, hzrecorded, hprecedes⟩ := h.follows x hx y hy hxrecorded hyrecorded hlt
  exact hfirst (named field z) ((mem_pipelineTimings hlisting).mpr ⟨z, hz, hzrecorded, rfl⟩)
    ((precedes_named field z x).mpr hprecedes)

/-- The stage that comes before none ends last. -/
theorem InSequence.le_stop (h : InSequence field) (hlisting : listing.Perm stages)
    (ha : a ∈ pipelineTimings listing field)
    (hlast : ∀ c ∈ pipelineTimings listing field, ¬ Precedes a c)
    (hb : b ∈ pipelineTimings listing field) : b.stop ≤ a.stop := by
  obtain ⟨x, hx, hxrecorded, rfl⟩ := (mem_pipelineTimings hlisting).mp ha
  obtain ⟨y, hy, hyrecorded, rfl⟩ := (mem_pipelineTimings hlisting).mp hb
  rw [← UInt64.not_lt, (named_eq field x).2, (named_eq field y).2]
  intro hlt
  obtain ⟨z, hz, hzrecorded, hprecedes⟩ := h.leads x hx y hy hxrecorded hyrecorded hlt
  exact hlast (named field z) ((mem_pipelineTimings hlisting).mpr ⟨z, hz, hzrecorded, rfl⟩)
    ((precedes_named field x z).mpr hprecedes)

/-- The comparator is a strict weak order of stages in sequence. -/
theorem InSequence.strictWeak (h : InSequence field) (hlisting : listing.Perm stages) :
    StrictWeak Precedes (pipelineTimings listing field) := by
  refine (strictWeak_iff precedes_irrefl precedes_trans).mpr fun a ha b hb c hc hac => ?_
  obtain ⟨x, hx, hxrecorded, rfl⟩ := (mem_pipelineTimings hlisting).mp ha
  obtain ⟨y, hy, hyrecorded, rfl⟩ := (mem_pipelineTimings hlisting).mp hb
  obtain ⟨z, hz, hzrecorded, rfl⟩ := (mem_pipelineTimings hlisting).mp hc
  rw [precedes_named] at hac ⊢
  rw [precedes_named]
  exact h.between x hx y hy z hz hxrecorded hyrecorded hzrecorded hac

/-- **Stages in sequence** are totalled. -/
theorem InSequence.totalSound (h : InSequence field) (tscGhz : ℚ) (name : PipelineStage) :
    TotalSound tscGhz name field := by
  intro listing hlisting
  refine ⟨h.strictWeak hlisting, fun sort hsort hne => ?_⟩
  obtain ⟨hperm, harranged⟩ := hsort (h.strictWeak hlisting)
  have hsorted : sort (pipelineTimings listing field) ≠ [] := by
    intro hnil
    rw [hnil] at hperm
    exact hne hperm.nil_eq.symm
  obtain ⟨first, back, hfirst⟩ := List.exists_cons_of_ne_nil hsorted
  obtain ⟨front, last, hlast⟩ := (List.eq_nil_or_concat' _).resolve_left hsorted
  have hstart : (updatePipelineTiming sort tscGhz listing name field name).start = first.start :=
    update_start sort tscGhz hne hfirst
  have hstop : (updatePipelineTiming sort tscGhz listing name field name).stop = last.stop :=
    update_stop sort tscGhz hne hlast (hlast ▸ hperm)
  have hfirstMem : first ∈ pipelineTimings listing field :=
    hperm.mem_iff.mp (hfirst ▸ List.mem_cons_self)
  have hlastMem : last ∈ pipelineTimings listing field :=
    hperm.mem_iff.mp (hlast ▸ List.mem_append_right front (List.mem_singleton_self last))
  have hnoneBefore : ∀ c ∈ pipelineTimings listing field, ¬ Precedes c first := by
    intro c hc
    have hc' := hperm.mem_iff.mpr hc
    rw [hfirst] at harranged hc'
    exact harranged.first precedes_irrefl c hc'
  have hnoneBehind : ∀ c ∈ pipelineTimings listing field, ¬ Precedes last c := by
    intro c hc
    have hc' := hperm.mem_iff.mpr hc
    rw [hlast] at harranged hc'
    exact harranged.last precedes_irrefl c hc'
  refine ⟨fun t ht => ?_, ⟨first, hfirstMem, hstart.symm⟩, fun t ht => ?_,
    ⟨last, hlastMem, hstop.symm⟩⟩
  · rw [hstart]
    exact h.start_le hlisting hfirstMem hnoneBefore ht
  · rw [hstop]
    exact h.le_stop hlisting hlastMem hnoneBehind ht

/-- **Totals that are right** come from stages in sequence. -/
theorem inSequence_of_totalSound (h : TotalSound tscGhz name field) : InSequence field := by
  obtain ⟨hweak, hspans⟩ := h stages (List.Perm.refl _)
  have hmem : ∀ x ∈ stages, IsRecorded (field x) → named field x ∈ pipelineTimings stages field :=
    fun x hx hrecorded => (mem_pipelineTimings (List.Perm.refl _)).mpr ⟨x, hx, hrecorded, rfl⟩
  refine ⟨fun x hx y hy z hz hxrecorded hyrecorded hzrecorded hxz => ?_,
    fun x hx y hy hxrecorded hyrecorded hlt => ?_, fun x hx y hy hxrecorded hyrecorded hlt => ?_⟩
  · have hbetween := (strictWeak_iff precedes_irrefl precedes_trans).mp hweak _
      (hmem x hx hxrecorded) _ (hmem y hy hyrecorded) _ (hmem z hz hzrecorded)
    simp only [precedes_named] at hbetween
    exact hbetween hxz
  · -- a stage that follows none may be sorted to the front
    by_contra hnone
    have hfirst : ∀ b ∈ pipelineTimings stages field, ¬ Precedes b (named field x) := by
      intro b hb hprecedes
      obtain ⟨z, hz, hzrecorded, rfl⟩ := (mem_pipelineTimings (List.Perm.refl _)).mp hb
      exact hnone ⟨z, hz, hzrecorded, (precedes_named field z x).mp hprecedes⟩
    obtain ⟨r, hperm, harranged⟩ :=
      exists_arranged_cons precedes_irrefl precedes_trans (hmem x hx hxrecorded) hfirst
    have hne : pipelineTimings stages field ≠ [] := List.ne_nil_of_mem (hmem x hx hxrecorded)
    have hle := (hspans (fun _ => named field x :: r) (fun _ => ⟨hperm, harranged⟩) hne).start_le
      (named field y) (hmem y hy hyrecorded)
    have hstart : (updatePipelineTiming (fun _ => named field x :: r) tscGhz stages name field
        name).start = (named field x).start := update_start _ tscGhz hne rfl
    rw [hstart, (named_eq field x).1, (named_eq field y).1, ← UInt64.not_lt] at hle
    exact hle hlt
  · -- a stage that comes before none may be sorted to the end
    by_contra hnone
    have hlast : ∀ b ∈ pipelineTimings stages field, ¬ Precedes (named field x) b := by
      intro b hb hprecedes
      obtain ⟨z, hz, hzrecorded, rfl⟩ := (mem_pipelineTimings (List.Perm.refl _)).mp hb
      exact hnone ⟨z, hz, hzrecorded, (precedes_named field x z).mp hprecedes⟩
    obtain ⟨r, hperm, harranged⟩ :=
      exists_arranged_concat precedes_irrefl precedes_trans (hmem x hx hxrecorded) hlast
    have hne : pipelineTimings stages field ≠ [] := List.ne_nil_of_mem (hmem x hx hxrecorded)
    have hle := (hspans (fun _ => r ++ [named field x]) (fun _ => ⟨hperm, harranged⟩) hne).le_stop
      (named field y) (hmem y hy hyrecorded)
    have hstop : (updatePipelineTiming (fun _ => r ++ [named field x]) tscGhz stages name field
        name).stop = (named field x).stop := update_stop _ tscGhz hne rfl hperm
    rw [hstop, (named_eq field x).2, (named_eq field y).2, ← UInt64.not_lt] at hle
    exact hle hlt

/-- **The total of a trace is right exactly if its stages are in sequence.** -/
theorem totals_iff (tscGhz : ℚ) (name : PipelineStage) (field : StageTimings) :
    TotalSound tscGhz name field ↔ InSequence field :=
  ⟨inSequence_of_totalSound, fun h => h.totalSound tscGhz name⟩

end Totals

/-- A timing that was not recorded. -/
def unrecorded : ScopeTiming := ⟨0, 0, 0, 0, 0, .totalStages⟩

/-- Data is received while it is parsed. -/
def nestedTimings : StageTimings
  | .receiveData => { unrecorded with start := 20, stop := 30 }
  | .parseJson => { unrecorded with start := 10, stop := 40 }
  | _ => unrecorded

/-- A sort that leaves the two stages as they are listed makes the inner one the first. -/
theorem nestedTimings_not_sound :
    Sorts id Precedes (pipelineTimings stages nestedTimings) ∧
      (updatePipelineTiming id 1 stages .parseJson nestedTimings .parseJson).start = 20 ∧
      ¬ TotalSound 1 .parseJson nestedTimings := by
  have hsorts : Sorts id Precedes (pipelineTimings stages nestedTimings) :=
    fun _ => ⟨List.Perm.refl _, by decide⟩
  refine ⟨hsorts, by decide, fun h => ?_⟩
  have hspans := (h stages (List.Perm.refl _)).2 id hsorts (by decide)
  exact absurd (hspans.start_le (named nestedTimings .parseJson) (by decide)) (by decide)

end PipelineTraceBuffer

end TradingEngine
