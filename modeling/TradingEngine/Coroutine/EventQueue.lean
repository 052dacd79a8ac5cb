import TradingEngine.Machinery.Run

/-!
# Coroutine/EventQueue — the places of an event queue

The queue of an event base is an `MPSCQueue` of `MAX_TASK_INFO` places whose `push` throws when it
is full.  Where only the number of its events counts, that is all that is modelled of it.
-/

namespace TradingEngine

namespace Coroutine

/-- `MAX_TASK_INFO`. -/
def maxTaskInfo : ℕ := 200

/-- `m_task_event_queue.push` on a queue that holds `queued` events; `none` where it throws. -/
def push (queued : ℕ) : Option ℕ := if queued < maxTaskInfo then some (queued + 1) else none

theorem push_of_lt {queued : ℕ} (h : queued < maxTaskInfo) : push queued = some (queued + 1) :=
  if_pos h

theorem push_of_le {queued : ℕ} (h : maxTaskInfo ≤ queued) : push queued = none :=
  if_neg (Nat.not_lt.mpr h)

end Coroutine

end TradingEngine
