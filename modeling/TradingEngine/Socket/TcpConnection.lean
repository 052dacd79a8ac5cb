import Mathlib.Logic.Function.Basic

/-!
# Socket/TcpConnection — data for a coroutine that waits, or will wait

`TCPConnection` gives what is read to the future that is registered, and keeps it where there is
none.  It is the same for the request and for the session that takes the connection over.
-/

namespace TradingEngine

/-- `TCPConnection`: whose future is registered, and the data no future was there for. -/
structure TCPConnection (ρ : Type) where
  waitingDataValue : Option ρ
  pendingDataQueue : List (List UInt8)
  deriving DecidableEq, Repr

namespace TCPConnection

variable {ρ : Type}

/-- `wait_for_data`, with the future whose value it sets; a future that is registered is replaced
and gets the empty string. -/
def waitForData (connection : TCPConnection ρ) (reader : ρ) :
    TCPConnection ρ × Option (ρ × List UInt8) :=
  match connection.pendingDataQueue with
  | data :: pending => ({ connection with pendingDataQueue := pending }, some (reader, data))
  | [] =>
    ({ connection with waitingDataValue := some reader },
      connection.waitingDataValue.map fun registered => (registered, []))

/-- `on_response_received`, with the future whose value it sets. -/
def onResponseReceived (connection : TCPConnection ρ) (data : List UInt8) :
    TCPConnection ρ × Option (ρ × List UInt8) :=
  match connection.waitingDataValue with
  | some registered => ({ connection with waitingDataValue := none }, some (registered, data))
  | none =>
    ({ connection with pendingDataQueue := connection.pendingDataQueue ++ [data] }, none)

end TCPConnection

end TradingEngine
