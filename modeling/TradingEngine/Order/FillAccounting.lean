import Mathlib.Algebra.BigOperators.Group.List.Basic
import Mathlib.Tactic.Ring
import TradingEngine.Machinery.Run
import TradingEngine.Order.OrderManager

/-!
# Order/FillAccounting — the totals of an order against its fills

`OrderFlow` is the manager with the database tasks still queued, and the log of the messages it was
given.  A fill adds the stored totals to its own; every update overwrites the stored order.  So the
totals stay right through fills (`accounts_fill`), and a `CANCELED`, which carries none, reports
that nothing was filled: `fills_accounted_iff` says that the totals are right along a run exactly
when nothing was.
-/

namespace TradingEngine

namespace OrderTradeUpdate

variable (u : OrderTradeUpdate)

/-- The message reports a fill. -/
def isFill : Bool := u.X = "FILLED" ∨ u.X = "PARTIALLY_FILLED"

/-- The message ends the order. -/
def isTerminal : Bool := u.X = "FILLED" ∨ u.X = "CANCELED"

/-- The quantity of the fill, if the message reports one; and likewise the fee, the volume in quote
currency and the output below. -/
def fillQuantity : ℚ := if u.isFill then u.l else 0

def fillFee : ℚ := if u.isFill then u.n else 0

def fillVolume : ℚ :=
  if u.isFill then
    match OrderSide.ofName u.S with
    | .buy => u.l * u.L
    | .sell => u.l * u.L - u.n
  else 0

def fillOutput : ℚ :=
  if u.isFill then
    match OrderSide.ofName u.S with
    | .buy => u.l - u.n
    | .sell => u.l * u.L - u.n
  else 0

/-- A message may come next in the life of an order: `NEW` first, then fills, then nothing after
`FILLED` or `CANCELED`. -/
def Follows (history : List OrderTradeUpdate) : Prop :=
  (history = [] ∧ u.X = "NEW") ∨
    (history ≠ [] ∧ (∀ v ∈ history, v.isTerminal = false) ∧
      (u.X = "PARTIALLY_FILLED" ∨ u.X = "FILLED" ∨ u.X = "CANCELED"))

instance decidableFollows (history : List OrderTradeUpdate) : Decidable (u.Follows history) :=
  inferInstanceAs (Decidable ((history = [] ∧ u.X = "NEW") ∨ (history ≠ [] ∧ _ ∧ _)))

end OrderTradeUpdate

/-! ## Totals -/

/-- The totals of an order are the sums over the messages of its history. -/
def Order.Accounts (o : Order) (history : List OrderTradeUpdate) : Prop :=
  o.filledQuantity = (history.map OrderTradeUpdate.fillQuantity).sum ∧
    o.fee = (history.map OrderTradeUpdate.fillFee).sum ∧
    o.volumnInQuoteCurrency = (history.map OrderTradeUpdate.fillVolume).sum ∧
    o.outputQuantity = (history.map OrderTradeUpdate.fillOutput).sum

instance Order.decidableAccounts (o : Order) (history : List OrderTradeUpdate) :
    Decidable (o.Accounts history) := inferInstanceAs (Decidable (_ ∧ _ ∧ _ ∧ _))

/-- The messages so far have filled nothing: an order without output data accounts for them. -/
def NothingFilled (history : List OrderTradeUpdate) : Prop := ({} : Order).Accounts history

instance decidableNothingFilled (history : List OrderTradeUpdate) :
    Decidable (NothingFilled history) := inferInstanceAs (Decidable (Order.Accounts _ _))

open OrderManager OrderTradeUpdate

section Totals

variable {u : OrderTradeUpdate} {history : List OrderTradeUpdate}

/-- The order of a message that is a fill. -/
theorem toOrder_of_isFill (h : u.isFill = true) :
    ∃ status, (status = .filled ∨ status = .partiallyFilled) ∧ u.toOrder = u.fillOrder status := by
  rcases of_decide_eq_true h with hX | hX
  · exact ⟨_, Or.inl rfl, u.toOrder_filled hX⟩
  · exact ⟨_, Or.inr rfl, u.toOrder_partiallyFilled hX⟩

/-- **A fill keeps the account.** -/
theorem accounts_fill {current : Order} (hfill : u.isFill = true) (h : current.Accounts history) :
    (mergeUpdate u.toOrder current).Accounts (history ++ [u]) := by
  obtain ⟨status, hstatus, horder⟩ := toOrder_of_isFill hfill
  obtain ⟨h1, h2, h3, h4⟩ := h
  have hisFill : (u.fillOrder status).isFill = true := by
    rcases hstatus with rfl | rfl <;> rfl
  have hclose : ∀ o : Order, (closeIfComplete o).Accounts (history ++ [u]) ↔
      o.Accounts (history ++ [u]) := by
    intro o
    rw [closeIfComplete]
    split <;> exact Iff.rfl
  rw [horder, mergeUpdate, if_pos hisFill, hclose]
  simp only [Order.Accounts, List.map_append, List.sum_append, List.map_cons, List.map_nil,
    List.sum_cons, List.sum_nil, add_zero, ← h1, ← h2, ← h3, ← h4, fillQuantity, fillFee,
    fillVolume, OrderTradeUpdate.fillOutput, if_pos hfill]
  cases hside : OrderSide.ofName u.S <;>
    simp [addTotals, OrderManager.fillOutput, fillOrder, baseOrder, hside, add_comm]

/-- A message that is no fill carries no totals and adds none. -/
theorem accounts_of_not_isFill (history : List OrderTradeUpdate) (hfill : u.isFill = false) :
    (u.toOrder.Accounts (history ++ [u]) ↔ NothingFilled history) ∧ u.toOrder.isFill = false := by
  have hzero : u.fillQuantity = 0 ∧ u.fillFee = 0 ∧ u.fillVolume = 0 ∧ u.fillOutput = 0 := by
    simp [fillQuantity, fillFee, fillVolume, OrderTradeUpdate.fillOutput, hfill]
  obtain ⟨z1, z2, z3, z4⟩ := hzero
  have hX := of_decide_eq_false hfill
  rw [not_or] at hX
  have horder : u.toOrder.filledQuantity = 0 ∧ u.toOrder.fee = 0 ∧
      u.toOrder.volumnInQuoteCurrency = 0 ∧ u.toOrder.outputQuantity = 0 ∧
        u.toOrder.isFill = false := by
    rw [toOrder]
    split_ifs with h1 h2 h3 h4
    · exact ⟨rfl, rfl, rfl, rfl, rfl⟩
    · exact absurd h2 hX.1
    · exact absurd h3 hX.2
    · exact ⟨rfl, rfl, rfl, rfl, rfl⟩
    · exact ⟨rfl, rfl, rfl, rfl, rfl⟩
  obtain ⟨o1, o2, o3, o4, o5⟩ := horder
  refine ⟨?_, o5⟩
  simp only [NothingFilled, Order.Accounts, List.map_append, List.sum_append, List.map_cons,
    List.map_nil, List.sum_cons, List.sum_nil, z1, z2, z3, z4, o1, o2, o3, o4, add_zero]

end Totals

/-! ## The manager in use -/

/-- The manager with the database tasks in its queue, and the log of the messages it was given. -/
structure OrderFlow where
  manager : OrderManager := {}
  dbTasks : List Order := []
  log : List OrderTradeUpdate := []

/-- A message of the exchange comes in, another caller updates an order, a database task runs. -/
inductive OrderEvent
  | message (update : OrderTradeUpdate)
  | update (order : Order)
  | database

namespace OrderFlow

/-- The messages of an order so far. -/
def history (s : OrderFlow) (i : OrderId) : List OrderTradeUpdate :=
  s.log.filter fun u => u.orderId = i

/-- `update_order` on the order event base: the database task is posted at the end. -/
def handle (s : OrderFlow) (order : Order) : OrderFlow × List Order :=
  let handled := s.manager.handleUpdateOrder order
  ({ s with manager := handled.1, dbTasks := s.dbTasks ++ [handled.2] },
    if informs handled.2 then [handled.2] else [])

/-- One step, with the orders given to the callbacks.  A message without an order id is dropped. -/
def step (s : OrderFlow) : OrderEvent → OrderFlow × List Order
  | .message u => if u.orderId = 0 then (s, []) else { s with log := s.log ++ [u] }.handle u.toOrder
  | .update order => s.handle order
  | .database =>
    match s.dbTasks with
    | [] => (s, [])
    | task :: rest => ({ s with manager := s.manager.updateOrderInDb task, dbTasks := rest }, [])

variable (s : OrderFlow) (i : OrderId)

/-- The order has ended. -/
def Closed : Prop := ∃ u ∈ s.history i, u.isTerminal = true

/-- The order of the run that is followed: its own messages come in the order of its life, and no
other caller touches it. -/
def Legal : OrderEvent → Prop
  | .message u => u.orderId = i → u.Follows (s.history i)
  | .update order => order.orderId ≠ i
  | .database => True

instance decidableLegal : DecidablePred (s.Legal i)
  | .message u => inferInstanceAs (Decidable (u.orderId = i → u.Follows (s.history i)))
  | .update order => inferInstanceAs (Decidable (order.orderId ≠ i))
  | .database => .isTrue trivial

/-- **What is claimed of a step**: the stored order accounts for the messages so far, and after a
message of its own so does the order given to the callbacks, which is the stored one. -/
def AccountsAfter (e : OrderEvent) : Prop :=
  let s' := Run.next step s e
  (∀ o, s'.manager.orderList.lookup i = some o → s'.history i ≠ [] → o.Accounts (s'.history i)) ∧
    ∀ u, e = .message u → u.orderId = i →
      ∃ o, s'.manager.orderList.lookup i = some o ∧ (s.step e).2 = [o] ∧ o.Accounts (s'.history i)

/-- **The condition.**  A `CANCELED` comes for an order that nothing was filled of. -/
def CanceledUnfilled : OrderEvent → Prop
  | .message u => u.orderId = i → u.X = "CANCELED" → NothingFilled (s.history i)
  | .update _ | .database => True

instance decidableCanceledUnfilled : DecidablePred (s.CanceledUnfilled i)
  | .message u =>
    inferInstanceAs (Decidable (u.orderId = i → u.X = "CANCELED" → NothingFilled (s.history i)))
  | .update _ | .database => .isTrue trivial

/-- The invariant: the stored order accounts for the history, an order under way is stored, and no
queued database task can take it off the list. -/
structure Inv : Prop where
  stored : ∀ o, s.manager.orderList.lookup i = some o → s.history i ≠ [] → o.Accounts (s.history i)
  present : s.history i ≠ [] → ¬ s.Closed i → ∃ o, s.manager.orderList.lookup i = some o
  tasks : ∀ t ∈ s.dbTasks, t.orderId = i →
    t.status ≠ .rejected ∧ (t.status = .canceled → s.Closed i)
  saved : s.manager.SavedUnderOwnId

variable {s : OrderFlow} {i : OrderId}

/-! ## Steps of other orders -/

/-- The history of an order grows by its own messages. -/
theorem history_append (u : OrderTradeUpdate) :
    history { s with log := s.log ++ [u] } i =
      if u.orderId = i then s.history i ++ [u] else s.history i := by
  rw [history, List.filter_append]
  split
  · rename_i h
    simp [history, h]
  · rename_i h
    simp [history, h]

/-- An update of another order. -/
theorem Inv.handle_ne (h : s.Inv i) {order : Order} (hne : order.orderId ≠ i) :
    (s.handle order).1.Inv i := by
  have hlookup : (s.handle order).1.manager.orderList.lookup i = s.manager.orderList.lookup i :=
    s.manager.lookup_handleUpdateOrder_ne (Ne.symm hne)
  refine ⟨fun o ho => h.stored o (hlookup ▸ ho), fun hh hc => ?_, fun t ht hti => ?_, ?_⟩
  · obtain ⟨o, ho⟩ := h.present hh hc
    exact ⟨o, hlookup.trans ho⟩
  · rcases List.mem_append.mp ht with hmem | hmem
    · exact h.tasks t hmem hti
    · rw [List.mem_singleton.mp hmem, handleUpdateOrder_orderId] at hti
      exact absurd hti hne
  · rw [SavedUnderOwnId, handle, handleUpdateOrder_orderDbCache]
    exact h.saved

/-- The log of other orders does not matter. -/
theorem Inv.log_ne (h : s.Inv i) {u : OrderTradeUpdate} (hne : u.orderId ≠ i) :
    Inv { s with log := s.log ++ [u] } i := by
  have hhist : history { s with log := s.log ++ [u] } i = s.history i := by
    rw [history_append, if_neg hne]
  refine ⟨?_, ?_, ?_, h.saved⟩
  · rw [hhist]
    exact h.stored
  · rw [Closed, hhist]
    exact h.present
  · rw [Closed, hhist]
    exact h.tasks

/-- A database task. -/
theorem Inv.database (hi : i ≠ 0) (h : s.Inv i) : (Run.next step s .database).Inv i := by
  rw [Run.next, step]
  cases htasks : s.dbTasks with
  | nil => exact h
  | cons t rest =>
    have hrest : ∀ t' ∈ rest, t' ∈ s.dbTasks := fun t' ht' => htasks ▸ List.mem_cons_of_mem t ht'
    have ht : t ∈ s.dbTasks := htasks ▸ List.mem_cons_self
    -- unless the order is closed, the task erases some other one
    have hkeep : ¬ s.Closed i → (s.manager.updateOrderInDb t).orderList.lookup i =
        s.manager.orderList.lookup i := by
      intro hopen
      rw [updateOrderInDb_orderList]
      split_ifs with hrej hcan
      · exact AList.lookup_erase_ne fun hti => (h.tasks t ht hti.symm).1 hrej
      · refine AList.lookup_erase_ne fun hsaved => ?_
        rcases h.saved.savedOrder t.orderId with hown | hzero
        · exact hopen ((h.tasks t ht (hown.symm.trans hsaved.symm)).2 hcan)
        · exact hi (hsaved.trans hzero)
      · rfl
    have hsub : ∀ o, (s.manager.updateOrderInDb t).orderList.lookup i = some o →
        s.manager.orderList.lookup i = some o := by
      intro o ho
      rw [updateOrderInDb_orderList] at ho
      split_ifs at ho
      · exact lookup_of_lookup_erase ho
      · exact lookup_of_lookup_erase ho
      · exact ho
    refine ⟨fun o ho => h.stored o (hsub o ho), fun hh hc => ?_,
      fun t' ht' => h.tasks t' (hrest t' ht'), h.saved.updateOrderInDb t⟩
    obtain ⟨o, ho⟩ := h.present hh hc
    exact ⟨o, (hkeep hc).trans ho⟩

/-! ## A message of the order itself -/

/-- The order that a message leaves stored. -/
def merged (s : OrderFlow) (u : OrderTradeUpdate) : Order :=
  (s.manager.handleUpdateOrder u.toOrder).2

/-- **The account after a message** is right unless a `CANCELED` forgets fills. -/
theorem Inv.merged_accounts (h : s.Inv i) {u : OrderTradeUpdate} (hu : u.orderId = i)
    (hfollows : u.Follows (s.history i)) :
    (s.merged u).Accounts (s.history i ++ [u]) ↔
      (u.X = "CANCELED" → NothingFilled (s.history i)) := by
  rcases hfollows with ⟨hnil, hX⟩ | ⟨hne, hopen, hX⟩
  · have hfill : u.isFill = false := by simp [OrderTradeUpdate.isFill, hX]
    obtain ⟨hiff, hnot⟩ := accounts_of_not_isFill (s.history i) hfill
    rw [merged, handleUpdateOrder_of_not_isFill _ hnot, hiff, hnil]
    exact iff_of_true (by simp [NothingFilled, Order.Accounts]) fun _ => by
      simp [NothingFilled, Order.Accounts]
  · by_cases hfill : u.isFill = true
    · -- an order under way is stored, and the fill is added to it
      have hnot : ¬ s.Closed i := by
        rintro ⟨v, hv, hterm⟩
        exact absurd hterm (by rw [hopen v hv]; exact Bool.false_ne_true)
      obtain ⟨o, ho⟩ := h.present hne hnot
      have hcan : u.X ≠ "CANCELED" := by
        rcases of_decide_eq_true hfill with hX' | hX' <;> rw [hX'] <;> decide
      have hmerged : s.merged u = mergeUpdate u.toOrder o := by
        rw [merged, handleUpdateOrder, toOrder_orderId, hu, getOrderById_of_lookup _ ho]
      rw [hmerged]
      exact iff_of_true (accounts_fill hfill (h.stored o ho hne)) fun hc => absurd hc hcan
    · have hfill' : u.isFill = false := by simpa using hfill
      have hcan : u.X = "CANCELED" := by
        rcases hX with hX | hX | hX
        · exact absurd (by simp [OrderTradeUpdate.isFill, hX]) hfill
        · exact absurd (by simp [OrderTradeUpdate.isFill, hX]) hfill
        · exact hX
      obtain ⟨hiff, hnot⟩ := accounts_of_not_isFill (s.history i) hfill'
      rw [merged, handleUpdateOrder_of_not_isFill _ hnot, hiff]
      exact ⟨fun hn _ => hn, fun hn => hn hcan⟩

/-- The callbacks hear of every message, and the database task of it takes an order off the list
only at its end. -/
theorem merged_status {u : OrderTradeUpdate} {history : List OrderTradeUpdate}
    (hfollows : u.Follows history) :
    informs (s.merged u) = true ∧ (s.merged u).status ≠ .rejected ∧
      ((s.merged u).status = .canceled → u.isTerminal = true) := by
  by_cases hfill : u.isFill = true
  · have hisFill : (s.merged u).isFill = true := by
      obtain ⟨status, hstatus, horder⟩ := toOrder_of_isFill hfill
      refine mergeUpdate_isFill ?_ _
      rw [horder]
      rcases hstatus with rfl | rfl <;> rfl
    rcases of_decide_eq_true hisFill with hs | hs <;> simp [informs, hs]
  · have hfill' : u.isFill = false := by simpa using hfill
    have hmerged : s.merged u = u.toOrder :=
      handleUpdateOrder_of_not_isFill _ (accounts_of_not_isFill [] hfill').2
    have hX : u.X = "NEW" ∨ u.X = "CANCELED" := by
      rcases hfollows with ⟨-, hX⟩ | ⟨-, -, hX | hX | hX⟩
      · exact Or.inl hX
      · exact absurd (by simp [OrderTradeUpdate.isFill, hX]) hfill
      · exact absurd (by simp [OrderTradeUpdate.isFill, hX]) hfill
      · exact Or.inr hX
    rw [hmerged]
    rcases hX with hX | hX
    · simp [u.toOrder_new hX, informs]
    · simp [u.toOrder_canceled hX, informs, OrderTradeUpdate.isTerminal, hX]

/-- A message in the order of its life is stored, given to the callbacks and posted. -/
theorem step_message {u : OrderTradeUpdate} {history : List OrderTradeUpdate} (hu : u.orderId ≠ 0)
    (hfollows : u.Follows history) :
    s.step (.message u) =
      ({ manager := (s.manager.handleUpdateOrder u.toOrder).1
         dbTasks := s.dbTasks ++ [s.merged u]
         log := s.log ++ [u] },
        [s.merged u]) := by
  rw [step, if_neg hu, handle]
  exact Prod.ext rfl (if_pos (merged_status hfollows).1)

/-- **A message of the order**: the claim is the account, and the account is the invariant. -/
theorem Inv.message_self (hi : i ≠ 0) (h : s.Inv i) {u : OrderTradeUpdate} (hu : u.orderId = i)
    (hfollows : u.Follows (s.history i)) :
    (s.AccountsAfter i (.message u) ↔ s.CanceledUnfilled i (.message u)) ∧
      (s.CanceledUnfilled i (.message u) → (Run.next step s (.message u)).Inv i) := by
  have hstep := step_message (s := s) (hu.symm ▸ hi) hfollows
  have hlookup : (Run.next step s (.message u)).manager.orderList.lookup i = some (s.merged u) := by
    rw [Run.next, hstep, ← hu, ← u.toOrder_orderId]
    exact s.manager.lookup_handleUpdateOrder u.toOrder
  have hhist : (Run.next step s (.message u)).history i = s.history i ++ [u] := by
    rw [Run.next, hstep]
    exact (history_append u).trans (if_pos hu)
  obtain ⟨-, hrej, hcan⟩ := merged_status (s := s) hfollows
  have hacc := h.merged_accounts hu hfollows
  refine ⟨⟨fun hP _ => ?_, fun hQ => ⟨fun o ho _ => ?_, fun u' _ _ => ?_⟩⟩, fun hQ => ?_⟩
  · obtain ⟨o, ho, -, hoacc⟩ := hP.2 u rfl hu
    rw [hlookup, Option.some.injEq] at ho
    subst ho
    exact hacc.mp (hhist ▸ hoacc)
  · rw [hlookup, Option.some.injEq] at ho
    subst ho
    rw [hhist]
    exact hacc.mpr (hQ hu)
  · refine ⟨s.merged u, hlookup, by rw [hstep], ?_⟩
    rw [hhist]
    exact hacc.mpr (hQ hu)
  · refine ⟨fun o ho _ => ?_, fun _ _ => ⟨_, hlookup⟩, fun t ht hti => ?_, ?_⟩
    · rw [hlookup, Option.some.injEq] at ho
      subst ho
      rw [hhist]
      exact hacc.mpr (hQ hu)
    · have hclosed : u.isTerminal = true → (Run.next step s (.message u)).Closed i := fun hterm =>
        ⟨u, hhist ▸ List.mem_append_right _ List.mem_cons_self, hterm⟩
      rw [Run.next, hstep] at ht
      rcases List.mem_append.mp ht with hmem | hmem
      · obtain ⟨hr, hc⟩ := h.tasks t hmem hti
        refine ⟨hr, fun hcancel => ?_⟩
        obtain ⟨v, hv, hterm⟩ := hc hcancel
        exact ⟨v, hhist ▸ List.mem_append_left _ hv, hterm⟩
      · rw [List.mem_singleton.mp hmem]
        exact ⟨hrej, fun hcancel => hclosed (hcan hcancel)⟩
    · rw [Run.next, hstep, SavedUnderOwnId, handleUpdateOrder_orderDbCache]
      exact h.saved

/-! ## Every run -/

/-- **One step**: the claim holds exactly under the condition, and then the invariant is kept. -/
theorem Inv.step (hi : i ≠ 0) (h : s.Inv i) {e : OrderEvent} (hlegal : s.Legal i e) :
    (s.AccountsAfter i e ↔ s.CanceledUnfilled i e) ∧
      (s.CanceledUnfilled i e → (Run.next OrderFlow.step s e).Inv i) := by
  -- where the step is not a message of the order, the invariant gives the claim
  have hother : (Run.next OrderFlow.step s e).Inv i → (∀ u, e = .message u → u.orderId ≠ i) →
      s.AccountsAfter i e := fun h' hne => ⟨h'.stored, fun u he hu => absurd hu (hne u he)⟩
  cases e with
  | message u =>
    by_cases hu : u.orderId = i
    · exact h.message_self hi hu (hlegal hu)
    · have hinv : (Run.next OrderFlow.step s (.message u)).Inv i := by
        rw [Run.next, OrderFlow.step]
        split
        · exact h
        · exact (h.log_ne hu).handle_ne (by rwa [toOrder_orderId])
      refine ⟨iff_of_true (hother hinv ?_) fun hc => absurd hc hu, fun _ => hinv⟩
      intro u' he
      rw [← OrderEvent.message.inj he]
      exact hu
  | update order =>
    have hinv : (Run.next OrderFlow.step s (.update order)).Inv i := h.handle_ne hlegal
    exact ⟨iff_of_true (hother hinv fun u he => OrderEvent.noConfusion he) trivial, fun _ => hinv⟩
  | database =>
    have hinv := h.database hi
    exact ⟨iff_of_true (hother hinv fun u he => OrderEvent.noConfusion he) trivial, fun _ => hinv⟩

theorem inv_init (loaded : OrderMap) (i : OrderId) :
    Inv { manager := OrderManager.init loaded } i where
  stored _ _ hh := absurd rfl hh
  present hh := absurd rfl hh
  tasks _ ht := absurd ht List.not_mem_nil
  saved _ _ h := absurd h (by simp [OrderManager.init])

/-- **Fill accounting, exactly.**  In every run from the loaded orders in which the order's messages
come in the order of its life, among any updates of other orders and database tasks: the totals are
right after every update if and only if no `CANCELED` comes for an order that something was filled
of. -/
theorem fills_accounted_iff (hi : i ≠ 0) (loaded : OrderMap) (es : List OrderEvent)
    (hlegal : Run.Along (Run.next step) (Legal · i) { manager := .init loaded } es) :
    Run.Along (Run.next step) (AccountsAfter · i) { manager := .init loaded } es ↔
      Run.Along (Run.next step) (CanceledUnfilled · i) { manager := .init loaded } es :=
  Run.along_iff_of_invariant (I := fun s : OrderFlow => s.Inv i)
    (fun _ _ hI hL hQ => (hI.step hi hL).2 hQ) (fun _ _ hI hL => (hI.step hi hL).1)
    (inv_init loaded i) hlegal

/-- An order of two, half of it filled. -/
def halfFilled : List OrderEvent :=
  [.message { orderId := 7, S := "BUY", q := 2, X := "NEW" }, .database,
    .message
      { orderId := 7, S := "BUY", q := 2, X := "PARTIALLY_FILLED", l := 1, L := 100, n := 1 }]

/-- The other half filled, with an order of another id between. -/
def filledInTwo : List OrderEvent :=
  halfFilled ++ [.update { orderId := 8, status := .rejected }, .database,
    .message { orderId := 7, S := "BUY", q := 2, X := "FILLED", l := 1, L := 102, n := 1 }]

theorem filledInTwo_accounted :
    Run.Along (Run.next step) (Legal · 7) { manager := .init ∅ } filledInTwo ∧
      Run.Along (Run.next step) (AccountsAfter · 7) { manager := .init ∅ } filledInTwo := by
  have hlegal : Run.Along (Run.next step) (Legal · 7) { manager := .init ∅ } filledInTwo := by
    decide +kernel
  exact ⟨hlegal, (fills_accounted_iff (by decide) ∅ filledInTwo hlegal).mpr (by decide +kernel)⟩

/-- The rest of the order is canceled. -/
def cancelRest : OrderEvent := .message { orderId := 7, S := "BUY", q := 2, X := "CANCELED" }

/-- **The filled half is forgotten.** -/
theorem cancelRest_forgets_fill :
    Run.Along (Run.next step) (Legal · 7) { manager := .init ∅ } (halfFilled ++ [cancelRest]) ∧
      ¬ Run.Along (Run.next step) (AccountsAfter · 7) { manager := .init ∅ }
        (halfFilled ++ [cancelRest]) := by
  refine ⟨by decide +kernel, fun h => ?_⟩
  have hafter := (Run.along_split h).2 _ rfl rfl
  have hforgets : ∀ o ∈ (Run.exec (Run.next step) { manager := .init ∅ }
      (halfFilled ++ [cancelRest])).manager.orderList.lookup 7, o.filledQuantity = 0 := by
    decide +kernel
  obtain ⟨o, ho, -, hquantity, -⟩ := hafter
  rw [hforgets o ho] at hquantity
  exact absurd hquantity (by decide +kernel)

end OrderFlow

end TradingEngine
