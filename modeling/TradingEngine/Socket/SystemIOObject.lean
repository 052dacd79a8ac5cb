import Mathlib.Algebra.Order.Ring.Int
import Mathlib.Data.List.Basic

/-!
# Socket/SystemIOObject — the queueing writer of a socket

`SystemIOObject::write` hands its data to the socket at once if nothing waits, and queues what the
socket has not taken; `check_to_write` empties the queue when the socket is writable again.  What
the socket does with a call is an input (`SocketOutcome`); how it is reported differs between
`TlsWrapper::write` and `::write`, so both functions take `write_to_socket_io` as a parameter.
-/

namespace TradingEngine

/-! ## The socket -/

/-- What the socket does with the bytes of one call: it takes `k + 1` of them, or all if there are
fewer; it would block; or it fails. -/
inductive SocketOutcome
  | takes (k : ℕ)
  | wouldBlock
  | fails
  deriving DecidableEq, Repr

/-- What a call returns, and whether `errno` is then `EAGAIN`. -/
structure WriteResult where
  n : ℤ
  again : Bool
  deriving DecidableEq, Repr

/-- `write_to_socket_io`, for the number of bytes it is given. -/
abbrev WriteToSocketIo := SocketOutcome → ℕ → WriteResult

/-- `static_cast<std::uint32_t>`. -/
def toUint32 (n : ℕ) : ℕ := n % 2 ^ 32

/-- `static_cast<int>`. -/
def toInt (n : ℕ) : ℤ := if toUint32 n < 2 ^ 31 then toUint32 n else toUint32 n - 2 ^ 32

theorem toUint32_le (n : ℕ) : toUint32 n ≤ n := Nat.mod_le _ _

theorem toUint32_of_lt {n : ℕ} (h : n < 2 ^ 31) : toUint32 n = n := Nat.mod_eq_of_lt (by omega)

@[simp] theorem toUint32_toUint32 (n : ℕ) : toUint32 (toUint32 n) = toUint32 n := Nat.mod_mod _ _

@[simp] theorem toInt_toUint32 (n : ℕ) : toInt (toUint32 n) = toInt n := by
  simp only [toInt, toUint32_toUint32]

theorem toInt_le (n : ℕ) : toInt n ≤ n := by
  have := toUint32_le n
  unfold toInt
  split <;> omega

theorem toInt_of_lt {n : ℕ} (h : n < 2 ^ 31) : toInt n = n := by
  rw [toInt, toUint32_of_lt h, if_pos h]

/-- `TlsWrapper::write` with no offset: 0 if it would block, -1 for every error. -/
def TlsWrapper.write (outcome : SocketOutcome) (size : ℤ) : ℤ :=
  if size < 0 then -1
  else if 0 ≥ size then 0
  else
    match outcome with
    | .takes k => min (k + 1) size
    | .wouldBlock => 0
    | .fails => -1

/-- `write_to_socket_io` of an object with a `TlsWrapper`; it does not set `errno`. -/
def tlsWriteToSocketIo : WriteToSocketIo := fun outcome size =>
  ⟨TlsWrapper.write outcome (toInt size), false⟩

/-- `write_to_socket_io` of an object without one: `::write`, which takes at most `0x7ffff000`
bytes. -/
def rawWriteToSocketIo : WriteToSocketIo := fun outcome size =>
  match outcome with
  | .takes k => ⟨min (k + 1) (min size 0x7ffff000), false⟩
  | .wouldBlock => ⟨-1, true⟩
  | .fails => ⟨-1, false⟩

/-- A call of `write_to_socket_io`: the bytes behind the pointer, and what it returned. -/
structure SocketCall where
  buffer : List UInt8
  result : WriteResult
  deriving DecidableEq, Repr

namespace SocketCall

/-- The bytes the socket took. -/
def accepted (call : SocketCall) : List UInt8 := call.buffer.take call.result.n.toNat

/-- `n == -1 && (errno == EAGAIN || errno == EWOULDBLOCK)`. -/
def isBlocked (call : SocketCall) : Bool := call.result.n = -1 ∧ call.result.again = true

/-- The call has failed. -/
def isError (call : SocketCall) : Bool := call.result.n < 0 ∧ call.isBlocked = false

end SocketCall

/-- The bytes the socket took in some calls. -/
def acceptedBytes (calls : List SocketCall) : List UInt8 := calls.flatMap SocketCall.accepted

@[simp] theorem acceptedBytes_nil : acceptedBytes [] = [] := rfl

@[simp] theorem acceptedBytes_cons (call : SocketCall) (calls : List SocketCall) :
    acceptedBytes (call :: calls) = call.accepted ++ acceptedBytes calls := List.flatMap_cons

/-! ## The object -/

/-- `SystemIOObject::State`. -/
inductive IOState
  | connectingAndHandshaking
  | readingAndWriting
  | none
  deriving DecidableEq, Repr

/-- The writer's part of a `SystemIOObject`; `epollOut` says that `epoll` has `EPOLLOUT` among the
events of its descriptor. -/
structure SystemIOObject where
  currentState : IOState
  writeQueue : List (List UInt8)
  writeOffset : ℕ
  writeEventEnabled : Bool
  epollOut : Bool
  deriving DecidableEq, Repr

namespace SystemIOObject

/-- A new object, in front of `add_fd`. -/
def fresh : SystemIOObject := ⟨.none, [], 0, false, false⟩

/-- `enable_write_event`. -/
def enableWriteEvent (object : SystemIOObject) : SystemIOObject :=
  if object.writeEventEnabled then object
  else { object with writeEventEnabled := true, epollOut := true }

/-- `disable_write_event`. -/
def disableWriteEvent (object : SystemIOObject) : SystemIOObject :=
  if object.writeEventEnabled then { object with writeEventEnabled := false, epollOut := false }
  else object

/-- Data at the end of the queue. -/
def pushBack (object : SystemIOObject) (data : List UInt8) : SystemIOObject :=
  { object with writeQueue := object.writeQueue ++ [data] }

/-- `write`, and the call of the socket it makes. -/
def write (writeToSocketIo : WriteToSocketIo) (outcome : SocketOutcome) (object : SystemIOObject)
    (data : List UInt8) : SystemIOObject × List SocketCall :=
  if data = [] then (object, [])
  else if object.writeQueue ≠ [] ∨ object.currentState ≠ .readingAndWriting then
    ((object.pushBack data).enableWriteEvent, [])
  else
    let call : SocketCall := ⟨data, writeToSocketIo outcome (toUint32 data.length)⟩
    let n := call.result.n
    if n = toInt data.length then (object, [call])
    else if 0 < n then
      (({ object.pushBack (data.drop n.toNat) with writeOffset := 0 }).enableWriteEvent, [call])
    else if call.isBlocked then
      (({ object.pushBack data with writeOffset := 0 }).enableWriteEvent, [call])
    else (object, [call])

/-- Where the loop of `check_to_write` ends: the queue, the offset, what is returned. -/
structure LoopEnd where
  writeQueue : List (List UInt8)
  writeOffset : ℕ
  code : ℤ

/-- The loop of `check_to_write`, and its calls of the socket; behind the last outcome the socket
would block. -/
def writeLoop (writeToSocketIo : WriteToSocketIo) :
    List (List UInt8) → ℕ → List SocketOutcome → LoopEnd × List SocketCall
  | [], offset, _ => (⟨[], offset, 0⟩, [])
  | data :: queue, offset, outcomes =>
    let call : SocketCall :=
      ⟨data.drop offset,
        writeToSocketIo (outcomes.headD .wouldBlock) (toUint32 (data.length - offset))⟩
    let n := call.result.n
    if 0 < n then
      if offset + n.toNat = data.length then
        let rest := writeLoop writeToSocketIo queue 0 outcomes.tail
        (rest.1, call :: rest.2)
      else (⟨data :: queue, offset + n.toNat, 0⟩, [call])
    else if call.isBlocked then (⟨data :: queue, offset, 0⟩, [call])
    else (⟨data :: queue, offset, -1⟩, [call])

/-- What `check_to_write` does: the object, its calls of the socket, what it returns. -/
structure Checked where
  object : SystemIOObject
  calls : List SocketCall
  code : ℤ

/-- `check_to_write`; -1 asks for the connection to be closed. -/
def checkToWrite (writeToSocketIo : WriteToSocketIo) (outcomes : List SocketOutcome)
    (object : SystemIOObject) : Checked :=
  let loop := writeLoop writeToSocketIo object.writeQueue object.writeOffset outcomes
  let written : SystemIOObject :=
    { object with writeQueue := loop.1.writeQueue, writeOffset := loop.1.writeOffset }
  ⟨if loop.1.writeQueue = [] then written.disableWriteEvent else written, loop.2, loop.1.code⟩

/-- The bytes that wait: the queue, from `m_write_offset` on. -/
def queued (object : SystemIOObject) : List UInt8 :=
  object.writeQueue.flatten.drop object.writeOffset

section Fields

variable (object : SystemIOObject) (data : List UInt8)

@[simp] theorem enableWriteEvent_writeQueue :
    object.enableWriteEvent.writeQueue = object.writeQueue := by
  unfold enableWriteEvent; split <;> rfl

@[simp] theorem enableWriteEvent_writeOffset :
    object.enableWriteEvent.writeOffset = object.writeOffset := by
  unfold enableWriteEvent; split <;> rfl

@[simp] theorem enableWriteEvent_currentState :
    object.enableWriteEvent.currentState = object.currentState := by
  unfold enableWriteEvent; split <;> rfl

@[simp] theorem enableWriteEvent_enabled : object.enableWriteEvent.writeEventEnabled = true := by
  unfold enableWriteEvent; split <;> simp_all

@[simp] theorem disableWriteEvent_writeQueue :
    object.disableWriteEvent.writeQueue = object.writeQueue := by
  unfold disableWriteEvent; split <;> rfl

@[simp] theorem disableWriteEvent_writeOffset :
    object.disableWriteEvent.writeOffset = object.writeOffset := by
  unfold disableWriteEvent; split <;> rfl

@[simp] theorem disableWriteEvent_currentState :
    object.disableWriteEvent.currentState = object.currentState := by
  unfold disableWriteEvent; split <;> rfl

@[simp] theorem disableWriteEvent_enabled :
    object.disableWriteEvent.writeEventEnabled = false := by
  unfold disableWriteEvent; split <;> simp_all

@[simp] theorem pushBack_writeQueue :
    (object.pushBack data).writeQueue = object.writeQueue ++ [data] := rfl

@[simp] theorem pushBack_writeOffset :
    (object.pushBack data).writeOffset = object.writeOffset := rfl

@[simp] theorem pushBack_currentState :
    (object.pushBack data).currentState = object.currentState := rfl

end Fields

end SystemIOObject

end TradingEngine
