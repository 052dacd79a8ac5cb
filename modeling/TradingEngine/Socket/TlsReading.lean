import Mathlib.Data.List.Basic

/-!
# Socket/TlsReading — what a `TlsWrapper` reads

`TlsWrapper::read` has a convention of its own: 0 says that there is nothing yet, and a negative
number that the connection is closed or has failed.  `read(2)` says the first with -1 and `errno`,
and the second with 0.
-/

namespace TradingEngine

/-- What `SSL_read` and `SSL_get_error` say. -/
inductive SslRead
  | bytes (first : UInt8) (rest : List UInt8)
  | wantIo
  | error
  deriving DecidableEq, Repr

/-- What `TlsWrapper::read` returns: a number of bytes, 0 or -1. -/
inductive TlsRead
  | bytes (first : UInt8) (rest : List UInt8)
  | noData
  | lost
  deriving DecidableEq, Repr

/-- `TlsWrapper::read`; `ready` says that there is an `SSL` and its handshake is done. -/
def TlsWrapper.read (ready : Bool) (outcome : SslRead) : TlsRead :=
  if ¬ ready then .lost
  else
    match outcome with
    | .bytes first rest => .bytes first rest
    | .wantIo => .noData
    | .error => .lost

namespace TlsRead

/-- The bytes in front of the first read that gives none. -/
def streamed : List TlsRead → List UInt8
  | .bytes first rest :: reads => first :: rest ++ streamed reads
  | _ => []

theorem length_streamed_replicate (n : ℕ) (first : UInt8) (rest : List UInt8) :
    (streamed (List.replicate n (.bytes first rest))).length = n * (rest.length + 1) := by
  induction n with
  | zero => exact (Nat.zero_mul _).symm
  | succ n ih =>
    rw [List.replicate_succ, streamed, List.length_append, ih, List.length_cons, Nat.succ_mul,
      Nat.add_comm]

end TlsRead

end TradingEngine
