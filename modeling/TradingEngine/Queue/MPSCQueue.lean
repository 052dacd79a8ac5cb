import Mathlib.Data.Int.Basic
import TradingEngine.Machinery.Ring
import TradingEngine.Machinery.Run

/-!
# Queue/MPSCQueue — the queue of many producers and one consumer, step by step

`push` and `pop` are taken apart into their atomic steps, which any number of producers and the
consumer make in any order.  A slot goes round: it waits for the producer of its position, holds
that producer's item, and waits for the producer one turn later; `sequence` says which.  The items
whose slots were claimed by a compare-exchange of `head` are listed, as are those `pop` returned.
-/

namespace TradingEngine

/-- `MPSCQueue::Slot`; a value is `none` where it is `nullptr`. -/
structure Slot (τ : Type*) where
  sequence : ℕ
  value : Option τ

/-- `MPSCQueue<T, Size>`, with its `PoolBuffer`. -/
structure MPSCQueue (τ : Type*) (capacity : ℕ) where
  availableItems : ℕ → Slot τ
  head : ℕ
  size : ℕ
  tail : ℕ
  name : String
  isPointer : Bool

/-- What `push` throws. -/
inductive PushError
  | nullItem
  | queueIsFull
  deriving DecidableEq, Repr

/-- The text of an error. -/
def PushError.text (name : String) : PushError → String
  | .nullItem => "Attempt to release a null item back to the cache pool: [" ++ name ++ "]"
  | .queueIsFull => "Queue is full: [" ++ name ++ "]"

namespace MPSCQueue

variable {τ : Type*} {capacity : ℕ}

/-- A value of `size_t`. -/
def toSize (n : ℕ) : ℕ := n % 2 ^ 64

/-- The difference of two of them as values of `intptr_t`. -/
def diff (sequence pos : ℕ) : ℤ := ((sequence : ℤ) - pos).bmod (2 ^ 64)

/-- `PoolBuffer::PoolBuffer`. -/
def construct (name : String) (isPointer : Bool) : MPSCQueue τ capacity where
  availableItems := fun i => ⟨i, none⟩
  head := 0
  size := 0
  tail := 0
  name := name
  isPointer := isPointer

/-- `available_items[pos % Size]`. -/
def slot (queue : MPSCQueue τ capacity) (pos : ℕ) : Slot τ := queue.availableItems (pos % capacity)

/-- A slot is written. -/
def setSlot (queue : MPSCQueue τ capacity) (pos : ℕ) (slot : Slot τ) : MPSCQueue τ capacity :=
  { queue with availableItems := Function.update queue.availableItems (pos % capacity) slot }

/-- `slot.value = ...`. -/
def setValue (queue : MPSCQueue τ capacity) (pos : ℕ) (value : Option τ) : MPSCQueue τ capacity :=
  queue.setSlot pos { queue.slot pos with value := value }

/-- `slot.sequence.store(...)`. -/
def setSequence (queue : MPSCQueue τ capacity) (pos sequence : ℕ) : MPSCQueue τ capacity :=
  queue.setSlot pos { queue.slot pos with sequence := sequence }

end MPSCQueue

open MPSCQueue

/-- Where a call of `push` is: the step it makes next. -/
inductive PushPoint
  | loadHead
  | loadSequence (pos : ℕ)
  | exchangeHead (pos : ℕ)
  | writeValue (pos : ℕ)
  | publish (pos : ℕ)
  | addSize
  deriving DecidableEq, Repr

/-- Where the consumer is. -/
inductive PopPoint (τ : Type*)
  | idle
  | loadSequence (pos : ℕ)
  | takeValue (pos : ℕ)
  | freeSlot (pos : ℕ) (item : Option τ)
  | advanceTail (pos : ℕ) (item : Option τ)
  | subSize (item : Option τ)
  deriving DecidableEq, Repr

/-- A queue and its callers, with the items with which `push` was called, those for which a position
was claimed, and those that `pop` returned. -/
structure QueueThreads (τ : Type*) (capacity : ℕ) where
  popping : PopPoint τ
  pushing : ℕ → Option (Option τ × PushPoint)
  queue : MPSCQueue τ capacity
  called : List (ℕ × Option τ)
  claimed : List (ℕ × Option τ)
  popped : List (Option τ)

/-- A call, or the next step of one.  `compare_exchange_weak` may fail for no reason. -/
inductive QueueEvent (τ : Type*)
  | push (producer : ℕ) (item : Option τ)
  | pushStep (producer : ℕ) (fails : Bool)
  | pop
  | popStep
  deriving DecidableEq, Repr

/-- How a call ends. -/
inductive QueueResult (τ : Type*)
  | pushed (producer : ℕ)
  | pushThrows (producer : ℕ) (error : PushError)
  | popped (item : Option τ)
  | poppedNull
  deriving DecidableEq, Repr

namespace QueueThreads

variable {τ : Type*} {capacity : ℕ}

/-- A new queue. -/
def start (name : String) (isPointer : Bool) : QueueThreads τ capacity where
  popping := .idle
  pushing := fun _ => none
  queue := .construct name isPointer
  called := []
  claimed := []
  popped := []

/-- A producer goes on at a point, or has returned. -/
def goPush (s : QueueThreads τ capacity) (producer : ℕ) (call : Option (Option τ × PushPoint)) :
    QueueThreads τ capacity :=
  { s with pushing := Function.update s.pushing producer call }

/-- `push`, up to its first step. -/
def callPush (s : QueueThreads τ capacity) (producer : ℕ) (item : Option τ) :
    QueueThreads τ capacity × List (QueueResult τ) :=
  match s.pushing producer with
  | some _ => (s, [])
  | none =>
    if s.queue.isPointer = true ∧ item = none then (s, [.pushThrows producer .nullItem])
    else
      ({ s.goPush producer (some (item, .loadHead)) with
          called := s.called ++ [(producer, item)] }, [])

/-- The steps of `push`. -/
def stepPush (s : QueueThreads τ capacity) (producer : ℕ) (item : Option τ) (fails : Bool) :
    PushPoint → QueueThreads τ capacity × List (QueueResult τ)
  | .loadHead => (s.goPush producer (some (item, .loadSequence s.queue.head)), [])
  | .loadSequence pos =>
    let diff := diff (s.queue.slot pos).sequence pos
    if diff = 0 then (s.goPush producer (some (item, .exchangeHead pos)), [])
    else if diff < 0 then (s.goPush producer none, [.pushThrows producer .queueIsFull])
    else (s.goPush producer (some (item, .loadHead)), [])
  | .exchangeHead pos =>
    if s.queue.head = pos ∧ fails = false then
      ({ s.goPush producer (some (item, .writeValue pos)) with
          queue := { s.queue with head := toSize (pos + 1) }
          claimed := s.claimed ++ [(producer, item)] }, [])
    -- a failed exchange loads the head
    else (s.goPush producer (some (item, .loadSequence s.queue.head)), [])
  | .writeValue pos =>
    ({ s.goPush producer (some (item, .publish pos)) with queue := s.queue.setValue pos item }, [])
  | .publish pos =>
    ({ s.goPush producer (some (item, .addSize)) with
        queue := s.queue.setSequence pos (toSize (pos + 1)) }, [])
  | .addSize =>
    ({ s.goPush producer none with queue := { s.queue with size := toSize (s.queue.size + 1) } },
      [.pushed producer])

/-- `pop`, up to its first step. -/
def callPop (s : QueueThreads τ capacity) : QueueThreads τ capacity :=
  match s.popping with
  | .idle => { s with popping := .loadSequence s.queue.tail }
  | _ => s

/-- The steps of `pop`. -/
def stepPop (s : QueueThreads τ capacity) :
    PopPoint τ → QueueThreads τ capacity × List (QueueResult τ)
  | .idle => (s, [])
  | .loadSequence pos =>
    if diff (s.queue.slot pos).sequence (toSize (pos + 1)) = 0 then
      ({ s with popping := .takeValue pos }, [])
    else ({ s with popping := .idle }, [.poppedNull])
  | .takeValue pos =>
    ({ s with
        queue := s.queue.setValue pos none
        popping := .freeSlot pos (s.queue.slot pos).value }, [])
  | .freeSlot pos item =>
    ({ s with
        queue := s.queue.setSequence pos (toSize (pos + capacity))
        popping := .advanceTail pos item }, [])
  | .advanceTail pos item =>
    ({ s with
        queue := { s.queue with tail := toSize (pos + 1) }
        popping := .subSize item }, [])
  | .subSize item =>
    ({ s with
        queue := { s.queue with size := toSize (s.queue.size + 2 ^ 64 - 1) }
        popping := .idle
        popped := s.popped ++ [item] }, [.popped item])

/-- **A step** of the callers. -/
def step (s : QueueThreads τ capacity) :
    QueueEvent τ → QueueThreads τ capacity × List (QueueResult τ)
  | .push producer item => s.callPush producer item
  | .pushStep producer fails =>
    match s.pushing producer with
    | none => (s, [])
    | some (item, point) => s.stepPush producer item fails point
  | .pop => (s.callPop, [])
  | .popStep => s.stepPop s.popping

/-- Between the compare-exchange of `head` and the publication of the item. -/
def Holds (s : QueueThreads τ capacity) (producer pos : ℕ) : Prop :=
  ∃ item, s.pushing producer = some (item, .writeValue pos) ∨
    s.pushing producer = some (item, .publish pos)

/-- The item of a position has been published. -/
def Published (s : QueueThreads τ capacity) (pos : ℕ) : Prop :=
  pos < s.claimed.length ∧ ∀ producer, ¬ s.Holds producer pos

/-- The positions whose slots the consumer has freed. -/
def freed (s : QueueThreads τ capacity) : ℕ :=
  match s.popping with
  | .advanceTail pos _ => pos + 1
  | _ => s.queue.tail

/-- The operations that have taken effect. -/
def operations (s : QueueThreads τ capacity) : ℕ := s.claimed.length + s.popped.length

end QueueThreads

/-! ## Slots and positions -/

namespace MPSCQueue

variable {τ : Type*} {capacity : ℕ} {queue : MPSCQueue τ capacity} {pos other : ℕ}

theorem toSize_of_lt {n : ℕ} (h : n < 2 ^ 64) : toSize n = n := Nat.mod_eq_of_lt h

/-- Less than half the range apart, the difference is the true one. -/
theorem diff_eq {sequence : ℕ} (h : sequence < pos + 2 ^ 63) (h' : pos < sequence + 2 ^ 63) :
    diff sequence pos = (sequence : ℤ) - pos := by
  rw [diff]
  exact Int.bmod_eq_of_le (by omega) (by omega)

/-- Positions in one turn of the ring have different slots. -/
theorem eq_of_mod_eq {lower : ℕ} (h : pos % capacity = other % capacity) (hpos : lower ≤ pos)
    (hpos' : pos < lower + capacity) (hother : lower ≤ other) (hother' : other < lower + capacity) :
    pos = other := by
  rcases lt_trichotomy pos other with hlt | heq | hlt
  · exact absurd h (Ring.slot_ne hlt (by omega))
  · exact heq
  · exact absurd h.symm (Ring.slot_ne hlt (by omega))

/-- Every position has a slot in each turn of the ring. -/
theorem exists_in_turn (hcapacity : 0 < capacity) {lower : ℕ} (h : pos ≤ lower) :
    ∃ other, lower ≤ other ∧ other < lower + capacity ∧ other % capacity = pos % capacity := by
  have hdiv := Nat.div_add_mod (lower - pos + capacity - 1) capacity
  have hmod := Nat.mod_lt (lower - pos + capacity - 1) hcapacity
  refine ⟨pos + capacity * ((lower - pos + capacity - 1) / capacity), ?_, ?_,
    Nat.add_mul_mod_self_left ..⟩
  · omega
  · omega

theorem slot_setSlot_of_eq (slot : Slot τ) (h : other % capacity = pos % capacity) :
    (queue.setSlot pos slot).slot other = slot := by
  rw [MPSCQueue.slot, h]
  exact Function.update_self ..

theorem slot_setSlot_of_ne (slot : Slot τ) (h : other % capacity ≠ pos % capacity) :
    (queue.setSlot pos slot).slot other = queue.slot other := Function.update_of_ne h ..

@[simp] theorem slot_setValue_sequence (value : Option τ) :
    ((queue.setValue pos value).slot other).sequence = (queue.slot other).sequence := by
  rw [setValue]
  by_cases h : other % capacity = pos % capacity
  · rw [slot_setSlot_of_eq _ h, slot, slot, h]
  · rw [slot_setSlot_of_ne _ h]

@[simp] theorem slot_setSequence_value (sequence : ℕ) :
    ((queue.setSequence pos sequence).slot other).value = (queue.slot other).value := by
  rw [setSequence]
  by_cases h : other % capacity = pos % capacity
  · rw [slot_setSlot_of_eq _ h, slot, slot, h]
  · rw [slot_setSlot_of_ne _ h]

end MPSCQueue

/-! ## The invariant -/

namespace QueueThreads

variable {τ : Type*} {capacity : ℕ} {s : QueueThreads τ capacity} {producer other pos : ℕ}
  {item : Option τ} {point : PushPoint}

/-- The claimed items, by position. -/
def items (s : QueueThreads τ capacity) : List (Option τ) := s.claimed.map (·.2)

/-- What holds at each point of `push`. -/
def PushOk (s : QueueThreads τ capacity) (producer : ℕ) (item : Option τ) : PushPoint → Prop
  | .loadHead => True
  | .loadSequence pos => pos ≤ s.claimed.length
  | .exchangeHead pos => pos ≤ s.claimed.length ∧ pos < s.freed + capacity
  | .writeValue pos => s.freed ≤ pos ∧ s.claimed[pos]? = some (producer, item)
  | .publish pos =>
    s.freed ≤ pos ∧ s.claimed[pos]? = some (producer, item) ∧ (s.queue.slot pos).value = item
  | .addSize => True

/-- What holds at each point of `pop`. -/
def PopOk (s : QueueThreads τ capacity) : PopPoint τ → Prop
  | .idle => s.popped.length = s.queue.tail
  | .loadSequence pos => s.popped.length = s.queue.tail ∧ pos = s.queue.tail
  | .takeValue pos => s.popped.length = s.queue.tail ∧ pos = s.queue.tail ∧ s.Published pos
  | .freeSlot pos item =>
    s.popped.length = s.queue.tail ∧ pos = s.queue.tail ∧ s.Published pos ∧
      s.items[pos]? = some item
  | .advanceTail pos item =>
    s.popped.length = s.queue.tail ∧ pos = s.queue.tail ∧ s.items[pos]? = some item
  | .subSize item =>
    s.popped.length + 1 = s.queue.tail ∧ s.items[s.popped.length]? = some item

/-- **The invariant.**  Of the positions of the turn that begins with the first slot not freed, the
published ones have a sequence of one more than the position, and the others the position. -/
structure Inv (s : QueueThreads τ capacity) : Prop where
  head : s.queue.head = s.claimed.length
  freed_le : s.freed ≤ s.claimed.length
  le_freed : s.claimed.length ≤ s.freed + capacity
  published : ∀ pos, s.freed ≤ pos → s.Published pos → (s.queue.slot pos).sequence = pos + 1
  unpublished : ∀ pos, s.freed ≤ pos → pos < s.freed + capacity → ¬ s.Published pos →
    (s.queue.slot pos).sequence = pos
  value : ∀ pos, s.freed ≤ pos → s.Published pos → (∀ item, s.popping ≠ .freeSlot pos item) →
    s.items[pos]? = some (s.queue.slot pos).value
  pushing : ∀ producer item point, s.pushing producer = some (item, point) →
    s.PushOk producer item point
  popping : s.PopOk s.popping
  popped : s.popped <+: s.items

@[simp] theorem goPush_self (call : Option (Option τ × PushPoint)) :
    (s.goPush producer call).pushing producer = call := Function.update_self ..

theorem goPush_of_ne (call : Option (Option τ × PushPoint)) (h : other ≠ producer) :
    (s.goPush producer call).pushing other = s.pushing other := Function.update_of_ne h ..

theorem holds_goPush_of_ne {call : Option (Option τ × PushPoint)} (h : other ≠ producer) :
    (s.goPush producer call).Holds other pos ↔ s.Holds other pos := by
  rw [Holds, Holds, goPush_of_ne call h]

theorem holds_goPush_self {call : Option (Option τ × PushPoint)} :
    (s.goPush producer call).Holds producer pos ↔
      ∃ item, call = some (item, .writeValue pos) ∨ call = some (item, .publish pos) := by
  rw [Holds, goPush_self]

/-- A producer holds the position it claimed. -/
theorem Inv.claimed_of_holds (h : Inv s) (hholds : s.Holds producer pos) :
    s.freed ≤ pos ∧ ∃ item, s.claimed[pos]? = some (producer, item) := by
  obtain ⟨item, hwrite | hpublish⟩ := hholds
  · obtain ⟨hfreed, hclaimed⟩ := h.pushing _ _ _ hwrite
    exact ⟨hfreed, item, hclaimed⟩
  · obtain ⟨hfreed, hclaimed, -⟩ := h.pushing _ _ _ hpublish
    exact ⟨hfreed, item, hclaimed⟩

theorem lt_of_claimed {entry : ℕ × Option τ} (h : s.claimed[pos]? = some entry) :
    pos < s.claimed.length := (List.getElem?_eq_some_iff.mp h).1

/-- Nobody else holds it. -/
theorem Inv.holder_eq (h : Inv s) (hholds : s.Holds producer pos) (hother : s.Holds other pos) :
    other = producer := by
  obtain ⟨-, _, hclaimed⟩ := h.claimed_of_holds hholds
  obtain ⟨-, _, hclaimed'⟩ := h.claimed_of_holds hother
  rw [hclaimed] at hclaimed'
  exact (congrArg Prod.fst (Option.some.inj hclaimed')).symm

/-- The sequence of a position of this turn. -/
theorem Inv.sequence_cases (h : Inv s) (hge : s.freed ≤ pos) (hlt : pos < s.freed + capacity) :
    (s.queue.slot pos).sequence = pos ∨ (s.queue.slot pos).sequence = pos + 1 := by
  by_cases hpublished : s.Published pos
  · exact .inr (h.published pos hge hpublished)
  · exact .inl (h.unpublished pos hge hlt hpublished)

/-- The numbers stay within half the range of `size_t`. -/
structure Bounded (s : QueueThreads τ capacity) : Prop where
  capacity_gt : 1 < capacity
  capacity_lt : capacity * 64 < 2 ^ 63
  positions : s.claimed.length + s.freed ≤ 2 ^ 63

/-- **What a producer finds in a slot**: an equal sequence in a slot of this turn, a smaller one in
a slot that is not free yet. -/
theorem Inv.diff_cases (h : Inv s) (hbounded : s.Bounded) (hpos : pos ≤ s.claimed.length) :
    (diff (s.queue.slot pos).sequence pos = 0 → pos < s.freed + capacity) ∧
      (diff (s.queue.slot pos).sequence pos < 0 → s.claimed.length = s.freed + capacity) := by
  obtain ⟨hgt, hobject, hpositions⟩ := hbounded
  have hfreed := h.freed_le
  have hle := h.le_freed
  rcases Nat.lt_or_ge pos (s.freed + capacity) with hlt | hge
  · refine ⟨fun _ => hlt, fun hneg => absurd hneg ?_⟩
    -- the sequence is one of this turn, so it is not behind
    obtain ⟨turn, hturn, hturn', hmod, hpos⟩ : ∃ turn, s.freed ≤ turn ∧
        turn < s.freed + capacity ∧ turn % capacity = pos % capacity ∧ pos ≤ turn := by
      rcases Nat.le_total pos s.freed with hbehind | hahead
      · obtain ⟨turn, hturn, hturn', hmod⟩ := exists_in_turn (by omega : 0 < capacity) hbehind
        exact ⟨turn, hturn, hturn', hmod, by omega⟩
      · exact ⟨pos, hahead, hlt, rfl, le_rfl⟩
    have hslot : s.queue.slot pos = s.queue.slot turn := by rw [slot, slot, hmod]
    have hcases := h.sequence_cases hturn hturn'
    rw [hslot, diff_eq (by omega) (by omega)]
    omega
  · have heq : pos = s.freed + capacity := by omega
    refine ⟨fun hzero => absurd hzero ?_, fun _ => by omega⟩
    have hslot : s.queue.slot pos = s.queue.slot s.freed := by
      rw [slot, slot, heq, Nat.add_mod_right]
    have hcases := h.sequence_cases le_rfl (by omega : s.freed < s.freed + capacity)
    rw [hslot, diff_eq (by omega) (by omega)]
    omega

/-- **What the consumer finds**: the next sequence behind an item that has been published. -/
theorem Inv.diff_tail (h : Inv s) (hbounded : s.Bounded) :
    diff (s.queue.slot s.freed).sequence (toSize (s.freed + 1)) = 0 ↔ s.Published s.freed := by
  obtain ⟨hgt, hobject, hpositions⟩ := hbounded
  have hfreed := h.freed_le
  rw [toSize_of_lt (by omega)]
  by_cases hpublished : s.Published s.freed
  · refine iff_of_true ?_ hpublished
    rw [h.published _ le_rfl hpublished, diff_eq (by omega) (by omega)]
    omega
  · refine iff_of_false ?_ hpublished
    rw [h.unpublished _ le_rfl (by omega) hpublished, diff_eq (by omega) (by omega)]
    omega

end QueueThreads

end TradingEngine
