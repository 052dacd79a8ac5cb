import Mathlib.Data.List.TakeWhile
import TradingEngine.Binance.OrderQuery
import TradingEngine.Machinery.Outcome
import TradingEngine.Order.OpenOrders

/-!
# Order/ClientOrderIds — the client order ids of the exchange, and the numbers kept for them

The exchange names an order by a text.  `parse_order_id` makes a number of it, the value of a text
of digits and the front of the hash of any other text, and `cancel` writes that number back.  So an
order goes by its name in both directions exactly if the name is a number as `to_string` writes it
(`clientOrderIds_iff`).  An exception in a coroutine ends the program.
-/

namespace TradingEngine

open Ascii

/-- What `std::stoull` throws. -/
inductive NumberError
  | invalidArgument
  | outOfRange
  deriving DecidableEq

/-- `std::stoull`: behind white space and a sign; a negative number wraps around. -/
def stoull (s : List UInt8) : Except NumberError ℕ :=
  let signed := s.dropWhile isSpace
  let negative := signed.head? = some minus
  let unsigned := if negative ∨ signed.head? = some 43 then signed.tail else signed
  let numeral := unsigned.takeWhile isDigit
  if numeral = [] then .error .invalidArgument
  else if 2 ^ 64 ≤ ofDecimal numeral then .error .outOfRange
  else .ok (if negative then (2 ^ 64 - ofDecimal numeral) % 2 ^ 64 else ofDecimal numeral)

namespace AppUtils

def isAllDigit (s : List UInt8) : Bool := s.all isDigit

variable (sha256 : List UInt8 → List UInt8)

/-- The first eight bytes of the hash, without the top bit. -/
def clientOrderIdToSystemOrderId (clientOrderId : List UInt8) : OrderId :=
  ((sha256 clientOrderId).take 8).foldl (fun value b => value * 256 + b.toNat) 0 % 2 ^ 63

def parseOrderId (s : List UInt8) : Except NumberError OrderId :=
  if isAllDigit s = false then .ok (clientOrderIdToSystemOrderId sha256 s) else stoull s

/-! ## Which texts are parsed -/

/-- The name of an order that is a number, written as `to_string` does. -/
def IsOrderNumber (c : List UInt8) : Prop := Canonical c ∧ ofDecimal c < 2 ^ 64

variable {sha256} {c : List UInt8} {id : OrderId}

theorem isAllDigit_iff : isAllDigit c = true ↔ ∀ b ∈ c, isDigit b = true := List.all_eq_true

/-- A text of digits has no white space and no sign in front. -/
theorem stoull_digits (h : ∀ b ∈ c, isDigit b = true) :
    stoull c =
      if c = [] then .error .invalidArgument
      else if 2 ^ 64 ≤ ofDecimal c then .error .outOfRange else .ok (ofDecimal c) := by
  have hhead : ∀ b ∈ c.head?, isDigit b = true := fun b hb => h b (List.mem_of_mem_head? hb)
  have hspace : c.dropWhile isSpace = c := by
    cases c with
    | nil => rfl
    | cons b c =>
      have hb := isSpace_of_isDigit (h b List.mem_cons_self)
      exact List.dropWhile_cons_of_neg (Bool.eq_false_iff.mp hb)
  have hminus : c.head? ≠ some minus := fun hm => absurd (hhead minus hm) (by decide)
  have hplus : c.head? ≠ some 43 := fun hp => absurd (hhead 43 hp) (by decide)
  have htake : c.takeWhile isDigit = c := List.takeWhile_eq_self_iff.mpr h
  simp only [stoull, hspace, hminus, hplus, or_self, if_false, htake]

/-- **Digits** are read as the number they stand for. -/
theorem parseOrderId_digits (h : isAllDigit c = true) :
    parseOrderId sha256 c =
      if c = [] then .error .invalidArgument
      else if 2 ^ 64 ≤ ofDecimal c then .error .outOfRange else .ok (ofDecimal c) := by
  rw [parseOrderId, if_neg (Bool.not_eq_false _ ▸ h), stoull_digits (isAllDigit_iff.mp h)]

/-- Parsing returns unless there are digits only, none or too many. -/
theorem parseOrderId_returns_iff (sha256 : List UInt8 → List UInt8) (c : List UInt8) :
    (∃ id, parseOrderId sha256 c = .ok id) ↔
      (isAllDigit c = true → c ≠ [] ∧ ofDecimal c < 2 ^ 64) := by
  by_cases hdigits : isAllDigit c = true
  · rw [parseOrderId_digits hdigits, forall_prop_of_true hdigits]
    split_ifs with hnil hlarge
    · exact iff_of_false nofun fun h => h.1 hnil
    · exact iff_of_false nofun fun h => Nat.not_lt.mpr hlarge h.2
    · exact iff_of_true ⟨_, rfl⟩ ⟨hnil, Nat.not_le.mp hlarge⟩
  · rw [parseOrderId, if_pos (Bool.eq_false_iff.mpr hdigits)]
    exact iff_of_true ⟨_, rfl⟩ fun h => absurd h hdigits

/-- **A number is read back** from the text it is written as. -/
theorem parseOrderId_decimal (sha256 : List UInt8 → List UInt8) {n : ℕ} (h : n < 2 ^ 64) :
    parseOrderId sha256 (decimal n) = .ok n := by
  have hdigits : isAllDigit (decimal n) = true :=
    isAllDigit_iff.mpr fun b => isDigit_of_mem_decimal
  rw [parseOrderId_digits hdigits, if_neg (decimal_ne_nil n), ofDecimal_decimal,
    if_neg (Nat.not_le.mpr h)]

/-- **A text is written back** from what it was parsed to exactly if it is the number itself. -/
theorem decimal_parseOrderId_iff (h : parseOrderId sha256 c = .ok id) :
    decimal id = c ↔ IsOrderNumber c := by
  by_cases hdigits : isAllDigit c = true
  · rw [parseOrderId_digits hdigits] at h
    split_ifs at h with hnil hlarge
    rw [← Except.ok.inj h, decimal_ofDecimal_iff, IsOrderNumber,
      and_iff_left (Nat.not_le.mp hlarge)]
  · refine iff_of_false (fun hback => hdigits ?_) fun hnumber => hdigits ?_
    · rw [← hback]
      exact isAllDigit_iff.mpr fun b => isDigit_of_mem_decimal
    · exact isAllDigit_iff.mpr hnumber.1.2.1

end AppUtils

open AppUtils

variable (sha256 : List UInt8 → List UInt8)

/-! ## The open orders of the exchange -/

/-- One order of the array, by its `clientOrderId` if it has one. -/
def addOpenOrder (res : Finset OrderId) :
    Option (List UInt8) → Except NumberError (Finset OrderId)
  | none => pure res
  | some c => do
    let id ← parseOrderId sha256 c
    pure (if id ≠ 0 then insert id res else res)

def getOpenOrdersOnExchange (openOrders : List (Option (List UInt8))) :
    Except NumberError (Finset OrderId) :=
  openOrders.foldlM (addOpenOrder sha256) ∅

variable {sha256} in
/-- **What is found open** is what the client order ids are parsed to, but for the number 0. -/
theorem mem_getOpenOrdersOnExchange {openOrders : List (Option (List UInt8))}
    {res : Finset OrderId} (h : getOpenOrdersOnExchange sha256 openOrders = .ok res) {n : OrderId} :
    n ∈ res ↔ n ≠ 0 ∧ ∃ c, some c ∈ openOrders ∧ parseOrderId sha256 c = .ok n := by
  -- what the loop has added to what it began with
  suffices hloop : ∀ start : Finset OrderId,
      openOrders.foldlM (addOpenOrder sha256) start = .ok res →
      (n ∈ res ↔ n ∈ start ∨ n ≠ 0 ∧ ∃ c, some c ∈ openOrders ∧ parseOrderId sha256 c = .ok n) by
    simpa using hloop ∅ h
  clear h
  induction openOrders with
  | nil =>
    intro start h
    rw [← Except.ok.inj h]
    simp
  | cons clientOrderId openOrders ih =>
    intro start h
    rw [List.foldlM_cons] at h
    obtain ⟨next, hnext, hrest⟩ := Except.bind_eq_ok.mp h
    rw [ih next hrest]
    cases clientOrderId with
    | none =>
      rw [← Except.ok.inj hnext]
      simp
    | some c =>
      obtain ⟨id, hparse, hnext⟩ := Except.bind_eq_ok.mp hnext
      have hadded : n ∈ next ↔ n ∈ start ∨ n ≠ 0 ∧ n = id := by
        rw [← Except.ok.inj hnext]
        by_cases hid : id = 0
        · rw [if_neg (not_not.mpr hid), hid]
          simp
        · rw [if_pos hid, Finset.mem_insert, or_comm]
          refine or_congr_right ⟨fun hn => ⟨hn ▸ hid, hn⟩, And.right⟩
      have hthis : n = id ↔ parseOrderId sha256 c = .ok n := by
        rw [hparse, Except.ok.injEq, eq_comm]
      rw [hadded, hthis]
      simp only [List.mem_cons, Option.some.injEq, or_and_right, exists_or, exists_eq_left]
      tauto

/-! ## The orders the manager knows -/

/-- What changes the orders of the manager, each step with the task it posts: a message of the
exchange with the client order id `c`, any other update, a database task, `get_order_by_id`. -/
inductive KnownEvent
  | message (c : List UInt8) (u : OrderTradeUpdate)
  | update (order : Order)
  | save (order : Order)
  | find (id : OrderId)

/-- The client order id as a text, byte by byte. -/
def clientText (c : List UInt8) : String := String.ofList (c.map fun b => Char.ofNat b.toNat)

/-- The message with its client order id, and the number made of it. -/
def OrderTradeUpdate.named (u : OrderTradeUpdate) (c : List UInt8) (id : OrderId) :
    OrderTradeUpdate :=
  { u with c := clientText c, orderId := id }

namespace OrderManager

/-- An exception ends the program. -/
def onEvent (m : OrderManager) : KnownEvent → Except NumberError OrderManager
  | .message c u => do
    let id ← parseOrderId sha256 c
    pure (if id ≠ 0 then (m.handleUpdateOrder (u.named c id).toOrder).1 else m)
  | .update order => pure (m.handleUpdateOrder order).1
  | .save order => pure (m.updateOrderInDb order)
  | .find id => pure (m.getOrderById id).1

/-- A run from the orders in the database. -/
def runEvents (orders : List Order) (es : List KnownEvent) : Except NumberError OrderManager :=
  es.foldlM (onEvent sha256) (.init (loadObjectsMap orders))

variable {sha256}

/-- **Each step** keeps the orders under their own ids. -/
theorem ListedUnderOwnId.onEvent {m m' : OrderManager} (h : m.ListedUnderOwnId) {e : KnownEvent}
    (hstep : m.onEvent sha256 e = .ok m') : m'.ListedUnderOwnId := by
  cases e with
  | message c u =>
    obtain ⟨id, -, hok⟩ := Except.bind_eq_ok.mp hstep
    rw [← Except.ok.inj hok]
    split_ifs
    · exact h.handleUpdateOrder _
    · exact h
  | update order =>
    rw [← Except.ok.inj hstep]
    exact h.handleUpdateOrder order
  | save order =>
    rw [← Except.ok.inj hstep]
    exact h.updateOrderInDb order
  | find id =>
    rw [← Except.ok.inj hstep]
    exact h.getOrderById id

/-- **Every run** does. -/
theorem listedUnderOwnId_runEvents {orders : List Order} {es : List KnownEvent} {m : OrderManager}
    (h : runEvents sha256 orders es = .ok m) : m.ListedUnderOwnId :=
  Except.foldlM_rule (P := fun _ m => m.ListedUnderOwnId)
    (fun _ _ _ _ hm hstep => hm.onEvent hstep) (listedUnderOwnId_loadObjectsMap orders) h

end OrderManager

/-- The order is in the list under the id that a message made of `c`. -/
def KnownFrom (c : List UInt8) (order : Order) : Prop :=
  ∃ orders before u after m id,
    OrderManager.runEvents sha256 orders (before ++ .message c u :: after) = .ok m ∧
      parseOrderId sha256 c = .ok id ∧ id ≠ 0 ∧ m.orderList.lookup id = some order

variable {sha256} in
/-- A message makes its order known. -/
theorem knownFrom_message {c : List UInt8} {id : OrderId} (orders : List Order)
    (u : OrderTradeUpdate) (hparse : parseOrderId sha256 c = .ok id) (hid : id ≠ 0) :
    KnownFrom sha256 c ((OrderManager.init (OrderManager.loadObjectsMap orders)).handleUpdateOrder
      (u.named c id).toOrder).2 := by
  refine ⟨orders, [], u, [], _, id, ?_, hparse, hid,
    (u.named c id).toOrder_orderId ▸ OrderManager.lookup_handleUpdateOrder _ _⟩
  simp only [OrderManager.runEvents, List.nil_append, List.foldlM_cons, List.foldlM_nil,
    OrderManager.onEvent, hparse]
  exact congrArg Except.ok (if_pos hid)

/-- The client order id that `cancel` sends. -/
def cancelledAs (i : Instrument) (order : Order) : Option (List UInt8) :=
  behindLast (text "&origClientOrderId=") (BinanceQuoterPerpetual.cancelQuery i order)

theorem cancelledAs_eq (i : Instrument) (order : Order) :
    cancelledAs i order = some (decimal order.orderId) := by
  have hnone : cut (text "&origClientOrderId=")
      (text "origClientOrderId=" ++ decimal order.orderId) = none := by
    have hnumber : cut (text "&origClientOrderId=") (decimal order.orderId ++ []) = none :=
      cut_append_eq_none (ampersand_notMem_decimal order.orderId) rfl
    rw [List.append_nil] at hnumber
    exact cut_append_eq_none (by decide) hnumber
  have hmark (front : List UInt8) : behindLast (text "&origClientOrderId=")
      (front ++ (text "&origClientOrderId=" ++ decimal order.orderId)) =
        some (decimal order.orderId) :=
    behindLast_mark front hnone
  rw [cancelledAs, BinanceQuoterPerpetual.cancelQuery, List.append_assoc]
  exact hmark _

/-- **Client order ids, exactly.**  A text is parsed unless it has digits only, none or too many;
every number is read back; and an order known from a message is cancelled under the name it came
with exactly if that is a number as `to_string` writes it. -/
theorem clientOrderIds_iff (sha256 : List UInt8 → List UInt8) :
    (∀ c, (∃ id, parseOrderId sha256 c = .ok id) ↔
      (isAllDigit c = true → c ≠ [] ∧ ofDecimal c < 2 ^ 64)) ∧
    (∀ n < 2 ^ 64, parseOrderId sha256 (decimal n) = .ok n) ∧
    ∀ c i order, KnownFrom sha256 c order →
      (cancelledAs i order = some c ↔ IsOrderNumber c) := by
  refine ⟨parseOrderId_returns_iff sha256, fun n => parseOrderId_decimal sha256, ?_⟩
  rintro c i order ⟨orders, before, u, after, m, id, hrun, hparse, -, hlookup⟩
  have hid : order.orderId = id := OrderManager.listedUnderOwnId_runEvents hrun id order hlookup
  rw [cancelledAs_eq, hid, Option.some.injEq]
  exact decimal_parseOrderId_iff hparse

/-- A hash of ones. -/
def onesHash (_ : List UInt8) : List UInt8 := List.replicate 32 1

/-- A new order in a message. -/
def newMessage : OrderTradeUpdate := { orderId := 0, S := "BUY", q := 2, X := "NEW" }

theorem knownFrom_new {sha256 : List UInt8 → List UInt8} {c : List UInt8} {id : OrderId}
    (hparse : parseOrderId sha256 c = .ok id) (hid : id ≠ 0) :
    KnownFrom sha256 c (newMessage.named c id).toOrder := by
  have hknown := knownFrom_message [] newMessage hparse hid
  rwa [OrderManager.handleUpdateOrder_of_not_isFill] at hknown
  rw [OrderTradeUpdate.toOrder_new _ rfl]
  rfl

/-- An order the engine has placed. -/
theorem cancelledAs_seven :
    cancelledAs shib (newMessage.named (text "7") 7).toOrder = some (text "7") :=
  ((clientOrderIds_iff onesHash).2.2 (text "7") shib _
    (knownFrom_new (by decide +kernel) (by decide))).mpr
    ⟨decimal_ofDecimal_iff.mp (by decide +kernel), by decide +kernel⟩

/-- An order placed on a phone. -/
def iosId : List UInt8 := text "ios_47d0a66fc34f421d8f56e4d4048bc8d4"

/-- The number it is kept under. -/
def iosNumber : OrderId := 72340172838076673

def iosOrder : Order := (newMessage.named iosId iosNumber).toOrder

/-- **Three ways to miss**: the empty text and twenty digits end the program, and the order of a
phone is cancelled under the number made of its hash. -/
theorem clientOrderId_missed :
    parseOrderId onesHash [] = .error .invalidArgument ∧
    parseOrderId onesHash (text "18446744073709551616") = .error .outOfRange ∧
    KnownFrom onesHash iosId iosOrder ∧
    cancelledAs shib iosOrder = some (text "72340172838076673") ∧
    cancelledAs shib iosOrder ≠ some iosId := by
  have hsent : cancelledAs shib iosOrder = some (text "72340172838076673") := by decide +kernel
  refine ⟨by decide +kernel, by decide +kernel,
    knownFrom_new (by decide +kernel) (by decide), hsent, ?_⟩
  rw [hsent]
  decide +kernel

end TradingEngine
