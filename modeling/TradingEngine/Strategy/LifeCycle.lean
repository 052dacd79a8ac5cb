import Mathlib.Data.List.Basic
import TradingEngine.Machinery.Run

/-!
# Strategy/LifeCycle — what the state objects of a strategy are told

`StrategyBase` keeps one state object for each `StrategyState` and notices a transition at the next
update, by comparing the two enum values.  `init` makes new objects under the same values.  A state
handles an update in a coroutine of its own, which runs after the tasks already posted.

The calls on the objects are the outputs of a machine, and a monitor that remembers which objects
have begun judges them: `wellFormed_iff_orderly`.
-/

namespace TradingEngine

/-- `StrategyState`. -/
inductive StrategyState
  | stop
  | run
  | unknown
  deriving DecidableEq, Repr

/-- The address of a state object. -/
abbrev StateId := ℕ

/-- A call on a state object. -/
inductive StateCall
  | begin (state : StateId)
  | end (state : StateId)
  | update (state : StateId)
  /-- An update is dispatched through a null pointer. -/
  | updateNull
  /-- `init` drops an object from `m_states`. -/
  | replace (state : StateId)
  deriving DecidableEq, Repr

/-- A coroutine waiting in the event base. -/
inductive StrategyTask
  | init
  | update (state : StateId)
  deriving DecidableEq, Repr

/-- `StrategyBase`, with the coroutines it has posted. -/
structure StrategyBase where
  currentState : StrategyState
  previousState : StrategyState := .unknown
  states : StrategyState → Option StateId := fun _ => none
  nextId : StateId := 0
  posted : List StrategyTask := []

/-- A task started from outside, with `running` for `new_config.is_running`; or the next of the
posted coroutines. -/
inductive StrategyEvent
  | init
  | update
  | applyConfig (running : Bool)
  | resume
  deriving DecidableEq, Repr

namespace StrategyBase

variable (s : StrategyBase)

/-- `init_states` of `StrategyMeanReversion`: one new object to run and one to stop. -/
def initStates : StrategyState → Option StateId
  | .run => some s.nextId
  | .stop => some (s.nextId + 1)
  | .unknown => none

/-- `init`. -/
def init : StrategyBase × List StateCall :=
  ({ s with states := s.initStates, nextId := s.nextId + 2 },
    (s.states .run).toList.map .replace ++ (s.states .stop).toList.map .replace)

/-- The calls of a transition, in `update`. -/
def transition : List StateCall :=
  if s.previousState ≠ s.currentState then
    (s.states s.previousState).toList.map .end ++ (s.states s.currentState).toList.map .begin
  else []

/-- `update`, up to the suspension on the state's own `update`. -/
def update : StrategyBase × List StateCall :=
  match s.states s.currentState with
  | some state =>
    ({ s with previousState := s.currentState, posted := s.posted ++ [.update state] },
      s.transition)
  | none =>
    -- the process does not survive this call
    ({ s with previousState := s.currentState }, s.transition ++ [.updateNull])

/-- `apply_config` and `StrategyMeanReversion::on_config_change`, with its `run` and `stop`. -/
def applyConfig (running : Bool) : StrategyBase :=
  { s with
    currentState := if running then .run else .stop
    posted := s.posted ++ [.init] }

/-- The next posted coroutine. -/
def resume : StrategyBase × List StateCall :=
  match s.posted with
  | [] => (s, [])
  | .init :: rest => { s with posted := rest }.init
  | .update state :: rest => ({ s with posted := rest }, [.update state])

def step : StrategyEvent → StrategyBase × List StateCall
  | .init => s.init
  | .update => s.update
  | .applyConfig running => (s.applyConfig running, [])
  | .resume => s.resume

/-! ## The monitor -/

/-- The objects that have begun and not ended, after a call. -/
def see (live : List StateId) : StateCall → List StateId
  | .begin state => state :: live
  | .end state => live.erase state
  | _ => live

/-- **What is claimed of a call**: an object begins when none is live, ends and is updated when it
is live, and is replaced when it is not; and no update goes to a null state. -/
def CallOk (live : List StateId) : StateCall → Prop
  | .begin _ => live = []
  | .end state => state ∈ live
  | .update state => state ∈ live
  | .updateNull => False
  | .replace state => state ∉ live

instance (live : List StateId) : ∀ call, Decidable (CallOk live call)
  | .begin _ => inferInstanceAs (Decidable (live = []))
  | .end state => inferInstanceAs (Decidable (state ∈ live))
  | .update state => inferInstanceAs (Decidable (state ∈ live))
  | .updateNull => inferInstanceAs (Decidable False)
  | .replace state => inferInstanceAs (Decidable (state ∉ live))

/-- `init` runs before the first update. -/
def InitFirst : Prop := s.previousState = .unknown

/-- **The condition.**  `init` runs before the first update only, an update finds the object of the
current state, and an object handles its update while it is still the one last updated. -/
def Orderly : StrategyEvent → Prop
  | .init => s.InitFirst
  | .update => s.states s.currentState ≠ none
  | .applyConfig _ => True
  | .resume =>
    match s.posted with
    | [] => True
    | .init :: _ => s.InitFirst
    | .update state :: _ => s.states s.previousState = some state

instance : Decidable s.InitFirst := inferInstanceAs (Decidable (_ = _))

instance : ∀ e, Decidable (s.Orderly e)
  | .init => inferInstanceAs (Decidable s.InitFirst)
  | .update => inferInstanceAs (Decidable (s.states s.currentState ≠ none))
  | .applyConfig _ => inferInstanceAs (Decidable True)
  | .resume =>
    match h : s.posted with
    | [] => .isTrue (by rw [Orderly, h]; trivial)
    | .init :: _ => decidable_of_iff s.InitFirst (by rw [Orderly, h])
    | .update state :: _ =>
      decidable_of_iff (s.states s.previousState = some state) (by rw [Orderly, h])

/-! ## The invariant -/

/-- The strategy and the objects that are live: none before the first update, and then the object of
the state updated last. -/
structure InStep (s : StrategyBase) (live : List StateId) : Prop where
  noUnknown : s.states .unknown = none
  live : live = (s.states s.previousState).toList
  found : s.previousState ≠ .unknown → s.states s.previousState ≠ none

variable {s} {live : List StateId}

theorem inStep_start (loaded : StrategyState) : InStep { currentState := loaded } [] :=
  ⟨rfl, rfl, fun h => absurd rfl h⟩

theorem InStep.live_of_initFirst (h : s.InStep live) (hfirst : s.InitFirst) : live = [] := by
  rw [h.live, hfirst, h.noUnknown]
  rfl

/-- After the first update one object is live, and it is in `m_states`. -/
theorem InStep.exists_live (h : s.InStep live) (hfirst : ¬ s.InitFirst) :
    ∃ state, s.states s.previousState = some state ∧ live = [state] ∧
      (s.previousState = .run ∨ s.previousState = .stop) := by
  obtain ⟨state, hstate⟩ := Option.ne_none_iff_exists'.mp (h.found hfirst)
  refine ⟨state, hstate, by rw [h.live, hstate]; rfl, ?_⟩
  cases hprevious : s.previousState with
  | run => exact Or.inl rfl
  | stop => exact Or.inr rfl
  | unknown => exact absurd hprevious hfirst

/-! ## One task -/

/-- Calls that only drop objects. -/
theorem exec_see_replace (live : List StateId) (dropped : List StateId) :
    Run.exec see live (dropped.map .replace) = live := by
  induction dropped with
  | nil => rfl
  | cons state dropped ih => exact ih

theorem along_callOk_replace (live dropped : List StateId) :
    Run.Along see CallOk live (dropped.map .replace) ↔ ∀ state ∈ dropped, state ∉ live := by
  induction dropped with
  | nil => simp
  | cons state dropped ih =>
    rw [List.map_cons, Run.along_cons, List.forall_mem_cons]
    exact and_congr_right fun _ => ih

/-- **`init` replaces no live object exactly before the first update.** -/
theorem along_callOk_init (h : s.InStep live) :
    Run.Along see CallOk live s.init.2 ↔ s.InitFirst := by
  rw [init, ← List.map_append, along_callOk_replace]
  constructor
  · intro hnot
    by_contra hfirst
    obtain ⟨state, hstate, hlive, hprevious⟩ := h.exists_live hfirst
    refine hnot state ?_ (hlive ▸ List.mem_singleton.mpr rfl)
    rw [List.mem_append, Option.mem_toList, Option.mem_toList]
    rcases hprevious with hp | hp
    · exact Or.inl (hp ▸ hstate)
    · exact Or.inr (hp ▸ hstate)
  · intro hfirst state _
    rw [h.live_of_initFirst hfirst]
    exact List.not_mem_nil

theorem inStep_init (h : s.InStep live) (hfirst : s.InitFirst) :
    s.init.1.InStep (Run.exec see live s.init.2) := by
  rw [init, ← List.map_append, exec_see_replace, h.live_of_initFirst hfirst]
  have hprevious : s.previousState = .unknown := hfirst
  refine ⟨rfl, ?_, fun hnot => absurd hprevious hnot⟩
  change [] = (s.initStates s.previousState).toList
  rw [hprevious]
  rfl

/-- **A transition** ends the live object, if there is one, and begins the new one. -/
theorem transition_ok (h : s.InStep live) {state : StateId}
    (hcurrent : s.states s.currentState = some state) :
    Run.Along see CallOk live s.transition ∧ Run.exec see live s.transition = [state] := by
  by_cases hsame : s.previousState = s.currentState
  · rw [transition, if_neg (not_not.mpr hsame), h.live, hsame, hcurrent]
    exact ⟨trivial, rfl⟩
  · rw [transition, if_pos hsame, hcurrent, h.live]
    cases s.states s.previousState with
    | none => exact ⟨⟨rfl, trivial⟩, rfl⟩
    | some previous =>
      have herase : [previous].erase previous = [] := List.erase_cons_head _ _
      refine ⟨⟨List.mem_singleton.mpr rfl, herase, trivial⟩, ?_⟩
      exact congrArg (List.cons state) herase

/-- **An update is dispatched rightly exactly when its state has an object.** -/
theorem along_callOk_update (h : s.InStep live) :
    Run.Along see CallOk live s.update.2 ↔ s.states s.currentState ≠ none := by
  cases hcurrent : s.states s.currentState with
  | none =>
    simp only [update, hcurrent, Run.along_append]
    exact iff_of_false (fun hok => hok.2.1) (fun hnot => hnot rfl)
  | some state =>
    simp only [update, hcurrent]
    exact iff_of_true (transition_ok h hcurrent).1 (Option.some_ne_none state)

theorem inStep_update (h : s.InStep live) (hcurrent : s.states s.currentState ≠ none) :
    s.update.1.InStep (Run.exec see live s.update.2) := by
  obtain ⟨state, hstate⟩ := Option.ne_none_iff_exists'.mp hcurrent
  simp only [update, hstate, (transition_ok h hstate).2]
  refine ⟨h.noUnknown, ?_, fun _ => hcurrent⟩
  change [state] = (s.states s.currentState).toList
  rw [hstate]
  rfl

/-- Posting a coroutine, or taking one, tells the objects nothing. -/
theorem InStep.withPosted (h : s.InStep live) (posted : List StrategyTask) :
    InStep { s with posted := posted } live := ⟨h.noUnknown, h.live, h.found⟩

/-- **A coroutine is resumed rightly exactly when the condition holds.** -/
theorem along_callOk_resume (h : s.InStep live) :
    Run.Along see CallOk live s.resume.2 ↔ s.Orderly .resume := by
  rw [resume, Orderly]
  rcases s.posted with _ | ⟨_ | state, rest⟩
  · exact Iff.rfl
  · exact along_callOk_init (h.withPosted rest)
  · refine (and_iff_left trivial).trans ?_
    rw [CallOk, h.live, Option.mem_toList]

theorem inStep_resume (h : s.InStep live) (hok : s.Orderly .resume) :
    s.resume.1.InStep (Run.exec see live s.resume.2) := by
  rw [resume]
  rcases hposted : s.posted with _ | ⟨_ | state, rest⟩
  · exact h
  · simp only [Orderly, hposted] at hok
    exact inStep_init (h.withPosted rest) hok
  · exact h.withPosted rest

/-- **The step lemma.** -/
theorem inStep_step (h : s.InStep live) (e : StrategyEvent) (hok : s.Orderly e) :
    (s.step e).1.InStep (Run.exec see live (s.step e).2) := by
  cases e with
  | init => exact inStep_init h hok
  | update => exact inStep_update h hok
  | applyConfig running => exact ⟨h.noUnknown, h.live, h.found⟩
  | resume => exact inStep_resume h hok

/-- **Exactness of one task.** -/
theorem along_callOk_iff (h : s.InStep live) (e : StrategyEvent) :
    Run.Along see CallOk live (s.step e).2 ↔ s.Orderly e := by
  cases e with
  | init => exact along_callOk_init h
  | update => exact along_callOk_update h
  | applyConfig running => exact Iff.rfl
  | resume => exact along_callOk_resume h

/-- **Exactness of a run.** -/
theorem along_trace_callOk_iff (h : s.InStep live) (es : List StrategyEvent) :
    Run.Along see CallOk live (Run.trace step s es) ↔ Run.Along (Run.next step) Orderly s es := by
  have hwatch : Run.Along (Run.watch step see) (fun p e => p.1.Orderly e) (s, live) es ↔
      Run.Along (Run.next step) Orderly s es := Run.along_watch s live es
  rw [Run.along_trace, ← hwatch]
  exact Run.along_iff_of_invariant (I := fun p => p.1.InStep p.2) (L := fun _ _ => True)
    (fun p e h _ hok => inStep_step h e hok) (fun p e h _ => along_callOk_iff h e) h
    (Run.along_of_forall (fun _ _ => trivial) _ es)

/-- **The life cycle of the state objects.**  From any state found in the database, and for every
order of tasks, each object is begun, updated, ended and replaced as claimed exactly when `init`
runs before the first update only, every update finds the object of its state, and no object is left
behind by a transition while it still has an update to handle. -/
theorem wellFormed_iff_orderly (loaded : StrategyState) (es : List StrategyEvent) :
    Run.Along see CallOk [] (Run.trace step { currentState := loaded } es) ↔
      Run.Along (Run.next step) Orderly { currentState := loaded } es :=
  along_trace_callOk_iff (inStep_start loaded) es

/-- A running strategy is updated, and its configuration is changed. -/
def configChangeRun : List StrategyEvent :=
  [.init, .update, .resume, .applyConfig true, .resume, .update]

/-- **The running object is replaced while it is live.** -/
theorem configChangeRun_not_callOk :
    ¬ Run.Along see CallOk [] (Run.trace step { currentState := .run } configChangeRun) := by
  decide

end StrategyBase

end TradingEngine
