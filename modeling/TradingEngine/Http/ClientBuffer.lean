import Mathlib.Data.Int.Notation
import TradingEngine.Machinery.Sink
import TradingEngine.Socket.TlsReading

/-!
# Http/ClientBuffer — the buffer a client reads into

`handle_read_data` copies one read after the other into a buffer on the stack until the socket has
nothing more, and hands the whole to the callback.  The loop looks at no size: the bytes arrive
exactly if they and the terminator fit (`delivers_iff`).
-/

namespace TradingEngine

open Sinks TlsRead

namespace HttpsClientRequestIO

/-- `CLIENT_BUFFER_SIZE`. -/
def clientBufferSize : ℕ := 3000000

/-- `CLIENT_BUFFER_TEMP_SIZE`. -/
def clientBufferTempSize : ℕ := 2048

/-- What a call returns, and the calls of `on_response_received_callback`. -/
structure ReadHandled where
  code : ℤ
  delivered : List (List UInt8)

variable {size : ℕ}

/-- The loop of `handle_read_data`; nothing if a `memcpy` goes past the end of the buffer. -/
def readLoop (b : Buffer UInt8 size) : List TlsRead → Option (Buffer UInt8 size)
  | .bytes first rest :: reads =>
    (Buffer.sink.write (first :: rest) b).bind fun b => readLoop b reads
  | _ => some b

/-- Behind the loop: the terminator, and the callback if there is one. -/
def finish (hasCallback : Bool) (b : Buffer UInt8 size) : Option ReadHandled :=
  (Buffer.sink.write [0] b).map fun terminated =>
    ⟨0, if 0 < b.pos ∧ hasCallback then [terminated.cells.take b.pos] else []⟩

/-- The buffer of a call, with what is on the stack. -/
def emptyBuffer (memory : Vector UInt8 size) : Buffer UInt8 size :=
  ⟨memory.toList, 0, memory.length_toList, Nat.zero_le _⟩

/-- `handle_read_data`; behind the reads there is nothing yet.  A first read that gives bytes is
copied as those of the loop are. -/
def handleReadData (hasCallback : Bool) (memory : Vector UInt8 clientBufferSize) :
    List TlsRead → Option ReadHandled
  | .lost :: _ => some ⟨-1, []⟩
  | .noData :: reads => (readLoop (emptyBuffer memory) reads).bind (finish hasCallback)
  | reads => (readLoop (emptyBuffer memory) reads).bind (finish hasCallback)

/-- The bytes a call reads. -/
def received : List TlsRead → List UInt8
  | .noData :: reads => streamed reads
  | reads => streamed reads

variable {b : Buffer UInt8 size} {reads : List TlsRead} {hasCallback : Bool}

/-- **The loop** writes what is streamed. -/
theorem readLoop_eq (b : Buffer UInt8 size) (reads : List TlsRead) :
    readLoop b reads = Buffer.sink.write (streamed reads) b := by
  induction reads generalizing b with
  | nil => exact (Buffer.sink.write_nil b).symm
  | cons read reads ih =>
    cases read with
    | bytes first rest =>
      rw [readLoop, streamed, Buffer.sink.write_append]
      exact congrArg _ (funext ih)
    | noData => exact (Buffer.sink.write_nil b).symm
    | lost => exact (Buffer.sink.write_nil b).symm

/-- What the callback is given. -/
def Delivers (hasCallback : Bool) (memory : Vector UInt8 clientBufferSize) (reads : List TlsRead) :
    Prop :=
  ∃ handled, handleReadData hasCallback memory reads = some handled ∧
    handled.delivered = if received reads ≠ [] ∧ hasCallback then [received reads] else []

/-- The terminator leaves what has been written. -/
theorem finish_eq (h : b.pos < size) :
    finish hasCallback b =
      some ⟨0, if 0 < b.pos ∧ hasCallback then [b.written] else []⟩ := by
  have hfits : b.pos + [(0 : UInt8)].length ≤ size := h
  have hwrite : Buffer.sink.write [0] b = some (b.put [0] hfits) := dif_pos hfits
  have hkept : (b.put [0] hfits).cells.take b.pos = b.written := by
    change (b.written ++ [0] ++ _).take b.pos = b.written
    rw [List.append_assoc, ← b.length_written, List.take_left]
  rw [finish, hwrite, Option.map_some, hkept]

theorem finish_eq_none (h : size ≤ b.pos) : finish hasCallback b = none := by
  have hfull : ¬ b.pos + [(0 : UInt8)].length ≤ size := Nat.not_le.mpr (Nat.lt_succ_of_le h)
  have hwrite : Buffer.sink.write [0] b = none := dif_neg hfull
  rw [finish, hwrite, Option.map_none]

/-- **The loop and the callback** on a buffer of any size. -/
theorem readLoop_finish (hasCallback : Bool) (memory : Vector UInt8 size) (reads : List TlsRead) :
    (readLoop (emptyBuffer memory) reads).bind (finish hasCallback) =
      if (streamed reads).length < size then
        some ⟨0, if streamed reads ≠ [] ∧ hasCallback then [streamed reads] else []⟩
      else none := by
  have hpos : (emptyBuffer memory).written = [] := List.take_zero
  rw [readLoop_eq]
  by_cases hfits : (emptyBuffer memory).pos + (streamed reads).length ≤ size
  · have hwritten := Buffer.written_put hfits
    rw [hpos, List.nil_append] at hwritten
    have hplace : ((emptyBuffer memory).put (streamed reads) hfits).pos =
        (streamed reads).length := Nat.zero_add _
    have hwrite : Buffer.sink.write (streamed reads) (emptyBuffer memory) =
        some ((emptyBuffer memory).put (streamed reads) hfits) := dif_pos hfits
    rw [hwrite, Option.bind_some]
    by_cases hlt : (streamed reads).length < size
    · rw [if_pos hlt, finish_eq (hplace.symm ▸ hlt), hwritten, hplace]
      simp only [List.length_pos_iff]
    · rw [if_neg hlt]
      exact finish_eq_none (hplace.symm ▸ Nat.le_of_not_lt hlt)
  · have hwrite : Buffer.sink.write (streamed reads) (emptyBuffer memory) = none := dif_neg hfits
    rw [hwrite, Option.bind_none, if_neg fun hlt => hfits ?_]
    exact (Nat.zero_add _).symm ▸ Nat.le_of_lt hlt

/-- **A call** that the first read does not end. -/
theorem handleReadData_eq (hasCallback : Bool) (memory : Vector UInt8 clientBufferSize)
    (h : ∀ more, reads ≠ .lost :: more) :
    handleReadData hasCallback memory reads =
      if (received reads).length < clientBufferSize then
        some ⟨0, if received reads ≠ [] ∧ hasCallback then [received reads] else []⟩
      else none := by
  cases reads with
  | nil => exact readLoop_finish hasCallback memory []
  | cons read reads =>
    cases read with
    | bytes first rest => exact readLoop_finish hasCallback memory (.bytes first rest :: reads)
    | noData => exact readLoop_finish hasCallback memory reads
    | lost => exact absurd rfl (h reads)

/-- **The receive buffer, exactly.**  Every write stays inside the buffer and the callback gets the
bytes read, once, if and only if they are fewer than the buffer has places. -/
theorem delivers_iff (hasCallback : Bool) (memory : Vector UInt8 clientBufferSize)
    (reads : List TlsRead) :
    Delivers hasCallback memory reads ↔ (received reads).length < clientBufferSize := by
  by_cases hlost : ∃ more, reads = .lost :: more
  · obtain ⟨more, rfl⟩ := hlost
    exact iff_of_true ⟨_, rfl, (if_neg fun h => h.1 rfl).symm⟩ (Nat.zero_lt_succ _)
  · rw [Delivers, handleReadData_eq hasCallback memory fun more heq => hlost ⟨more, heq⟩]
    by_cases hlt : (received reads).length < clientBufferSize
    · rw [if_pos hlt]
      exact iff_of_true ⟨_, rfl, rfl⟩ hlt
    · rw [if_neg hlt]
      exact iff_of_false (fun ⟨_, h, _⟩ => Option.some_ne_none _ h.symm) hlt

/-- A full read. -/
def fullRead : TlsRead := .bytes 0 (List.replicate (clientBufferTempSize - 1) 0)

theorem fullRead_ne_lost : fullRead ≠ .lost := by
  rw [fullRead]
  exact nofun

/-- Full reads that are too many. -/
theorem handleReadData_fullReads {n : ℕ} (h : clientBufferSize ≤ (n + 1) * clientBufferTempSize)
    (hasCallback : Bool) (memory : Vector UInt8 clientBufferSize) :
    handleReadData hasCallback memory (List.replicate (n + 1) fullRead) = none := by
  have hlength : (received (List.replicate (n + 1) fullRead)).length =
      (n + 1) * clientBufferTempSize := by
    refine (length_streamed_replicate (n + 1) 0 _).trans ?_
    rw [List.length_replicate]
    rfl
  have hlost : ∀ more, List.replicate (n + 1) fullRead ≠ .lost :: more := fun more heq =>
    fullRead_ne_lost (List.cons.inj heq).1
  rw [handleReadData_eq hasCallback memory hlost, hlength, if_neg (Nat.not_lt.mpr h)]

/-- A peer that has sent three megabytes, in 1465 full reads. -/
def fastPeer : List TlsRead := List.replicate (1464 + 1) fullRead

/-- **They are copied past the end of the buffer.** -/
theorem fastPeer_overruns :
    (∀ read ∈ fastPeer, ∃ first rest, read = .bytes first rest ∧
      (first :: rest).length ≤ clientBufferTempSize) ∧
    ¬ Delivers true (Vector.replicate clientBufferSize 0) fastPeer := by
  constructor
  · intro read hread
    refine ⟨0, _, List.eq_of_mem_replicate hread, ?_⟩
    rw [List.length_cons, List.length_replicate]
    decide
  · rintro ⟨handled, hhandled, -⟩
    rw [fastPeer, handleReadData_fullReads (by decide)] at hhandled
    exact Option.some_ne_none _ hhandled.symm

end HttpsClientRequestIO

end TradingEngine
