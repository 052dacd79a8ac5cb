import Mathlib.Data.List.TakeDrop
import TradingEngine.Machinery.Run
import TradingEngine.Socket.SystemIOObject

/-!
# Socket/WriteStream — what a socket has taken, and what still waits

The bytes the socket has taken, followed by the bytes that wait, are the bytes given to `write`: a
partial write moves the split point between the two, and nothing else.  `TlsWrapper::write` reports
a socket that would block as 0, which neither `write` nor `check_to_write` takes for "try again", so
the stream is kept exactly as long as that does not happen (`tls_streamKept_iff`); with the
convention of `::write` it always is (`raw_streamKept`).
-/

namespace TradingEngine

namespace SystemIOObject

/-! ## The queue

No item of the queue is empty, and `m_write_offset` stands inside its first one. -/

/-- The offset stands inside the first item, or at 0 if there is none. -/
def OffsetInside : List (List UInt8) → ℕ → Prop
  | [], offset => offset = 0
  | data :: _, offset => offset < data.length

/-- What `write` and `check_to_write` keep. -/
structure Wf (object : SystemIOObject) : Prop where
  nonempty : ∀ data ∈ object.writeQueue, data ≠ []
  inside : OffsetInside object.writeQueue object.writeOffset

theorem wf_fresh : fresh.Wf := ⟨fun _ h => absurd h List.not_mem_nil, rfl⟩

theorem offsetInside_zero {queue : List (List UInt8)} (h : ∀ data ∈ queue, data ≠ []) :
    OffsetInside queue 0 := by
  cases queue with
  | nil => rfl
  | cons data queue => exact List.length_pos_iff.mpr (h data (.head queue))

theorem OffsetInside.append {queue : List (List UInt8)} {offset : ℕ} {data : List UInt8}
    (h : OffsetInside queue offset) (hdata : data ≠ []) :
    OffsetInside (queue ++ [data]) offset := by
  cases queue with
  | nil =>
    have hoffset : offset = 0 := h
    subst hoffset
    exact List.length_pos_iff.mpr hdata
  | cons first queue => exact h

theorem OffsetInside.le_length {queue : List (List UInt8)} {offset : ℕ}
    (h : OffsetInside queue offset) : offset ≤ queue.flatten.length := by
  cases queue with
  | nil => exact h.le
  | cons data queue =>
    have hlt : offset < data.length := h
    simp only [List.flatten_cons, List.length_append]
    omega

section PushBack

variable {object : SystemIOObject} {data : List UInt8}

theorem Wf.pushBack (h : object.Wf) (hdata : data ≠ []) : (object.pushBack data).Wf where
  nonempty d hd := by
    rcases List.mem_append.mp hd with hd | hd
    · exact h.nonempty d hd
    · rw [List.mem_singleton.mp hd]
      exact hdata
  inside := h.inside.append hdata

theorem queued_pushBack (h : object.Wf) :
    (object.pushBack data).queued = object.queued ++ data := by
  have happend : (object.writeQueue ++ [data]).flatten = object.writeQueue.flatten ++ data :=
    by simp
  rw [queued, pushBack_writeQueue, pushBack_writeOffset, happend,
    List.drop_append_of_le_length h.inside.le_length, queued]

@[simp] theorem queued_enableWriteEvent : object.enableWriteEvent.queued = object.queued := by
  simp only [queued, enableWriteEvent_writeQueue, enableWriteEvent_writeOffset]

theorem Wf.enableWriteEvent (h : object.Wf) : object.enableWriteEvent.Wf where
  nonempty := by simpa using h.nonempty
  inside := by simpa using h.inside

/-- An object with an empty queue whose offset is set back is as it was. -/
theorem Wf.writeOffset_eq_zero (h : object.Wf) (hqueue : object.writeQueue = []) :
    object.writeOffset = 0 := by
  have hinside := h.inside
  rwa [hqueue] at hinside

theorem Wf.queued_eq_nil (h : object.Wf) (hqueue : object.writeQueue = []) :
    object.queued = [] := by
  rw [queued, hqueue, h.writeOffset_eq_zero hqueue]
  rfl

end PushBack

/-! ## `write` -/

/-- **What `write` can do**: nothing; queue its data; or call the socket once, and keep what is
behind the bytes it took, unless its count looks full or like an error. -/
inductive Written (object : SystemIOObject) (data : List UInt8) (result : WriteResult) :
    SystemIOObject × List SocketCall → Prop
  | empty (h : data = []) : Written object data result (object, [])
  | queued (h : data ≠ []) :
      Written object data result ((object.pushBack data).enableWriteEvent, [])
  | full (h : data ≠ []) (hqueue : object.writeQueue = []) (hn : result.n = toInt data.length) :
      Written object data result (object, [⟨data, result⟩])
  | part (h : data ≠ []) (hqueue : object.writeQueue = []) (hn : result.n ≠ toInt data.length)
      (hpos : 0 < result.n) :
      Written object data result
        (({ object.pushBack (data.drop result.n.toNat) with writeOffset := 0 }).enableWriteEvent,
          [⟨data, result⟩])
  | blocked (h : data ≠ []) (hqueue : object.writeQueue = []) (hn : result.n ≠ toInt data.length)
      (hpos : ¬ 0 < result.n) (hblocked : SocketCall.isBlocked ⟨data, result⟩ = true) :
      Written object data result
        (({ object.pushBack data with writeOffset := 0 }).enableWriteEvent, [⟨data, result⟩])
  | dropped (h : data ≠ []) (hqueue : object.writeQueue = []) (hn : result.n ≠ toInt data.length)
      (hpos : ¬ 0 < result.n) (hblocked : SocketCall.isBlocked ⟨data, result⟩ = false) :
      Written object data result (object, [⟨data, result⟩])

variable (writeToSocketIo : WriteToSocketIo)

theorem written_write (outcome : SocketOutcome) (object : SystemIOObject) (data : List UInt8) :
    Written object data (writeToSocketIo outcome (toUint32 data.length))
      (object.write writeToSocketIo outcome data) := by
  unfold write
  by_cases hdata : data = []
  · rw [if_pos hdata]
    exact .empty hdata
  rw [if_neg hdata]
  by_cases hwait : object.writeQueue ≠ [] ∨ object.currentState ≠ .readingAndWriting
  · rw [if_pos hwait]
    exact .queued hdata
  rw [if_neg hwait]
  have hqueue : object.writeQueue = [] := not_not.mp fun h => hwait (.inl h)
  dsimp only
  split
  · next hn => exact .full hdata hqueue hn
  · next hn =>
    split
    · next hpos => exact .part hdata hqueue hn hpos
    · next hpos =>
      split
      · next hblocked => exact .blocked hdata hqueue hn hpos hblocked
      · next hblocked => exact .dropped hdata hqueue hn hpos (by simpa using hblocked)

section Write

variable {object : SystemIOObject} {data : List UInt8} {result : WriteResult}
  {written : SystemIOObject × List SocketCall}

/-- A count that does not look full is short of the data. -/
theorem lt_length_of_ne (hle : result.n ≤ toUint32 data.length) (hint : result.n < 2 ^ 31)
    (hn : result.n ≠ toInt data.length) : result.n < data.length := by
  have hsize := toUint32_le data.length
  refine lt_of_le_of_ne (hle.trans (by exact_mod_cast hsize)) fun heq => hn ?_
  rw [heq, toInt_of_lt]
  exact_mod_cast heq ▸ hint

theorem wf_of_zero (hqueue : object.writeQueue = []) (hdata : data ≠ []) :
    ({ object.pushBack data with writeOffset := 0 } : SystemIOObject).Wf where
  nonempty d hd := by
    have hmem : d ∈ [data] := by simpa [hqueue] using hd
    rw [List.mem_singleton.mp hmem]
    exact hdata
  inside := by
    have hinside : OffsetInside [data] 0 := List.length_pos_iff.mpr hdata
    simpa [hqueue] using hinside

theorem queued_of_zero (hqueue : object.writeQueue = []) :
    ({ object.pushBack data with writeOffset := 0 } : SystemIOObject).queued = data := by
  simp [queued, hqueue]

theorem Written.wf (h : Written object data result written) (hwf : object.Wf)
    (hle : result.n ≤ toUint32 data.length) (hint : result.n < 2 ^ 31) : written.1.Wf := by
  cases h with
  | empty => exact hwf
  | queued hdata => exact (hwf.pushBack hdata).enableWriteEvent
  | full => exact hwf
  | part hdata hqueue hn hpos =>
    have hlt := lt_length_of_ne hle hint hn
    have hrest : data.drop result.n.toNat ≠ [] := by
      rw [Ne, List.drop_eq_nil_iff]
      omega
    exact (wf_of_zero hqueue hrest).enableWriteEvent
  | blocked hdata hqueue => exact (wf_of_zero hqueue hdata).enableWriteEvent
  | dropped => exact hwf

/-- A call that took nothing and is neither blocked nor an error reported 0. -/
theorem eq_zero_of_not_error {call : SocketCall} (hpos : ¬ 0 < call.result.n)
    (hblocked : call.isBlocked = false) (herror : call.isError = false) : call.result.n = 0 := by
  have hnot : ¬ call.result.n < 0 := fun hneg => by
    simp [SocketCall.isError, hneg, hblocked] at herror
  omega

/-- **`write` keeps the stream exactly when** its call did not report 0, nor a count that looks full
and is not. -/
theorem Written.kept_iff (h : Written object data result written) (hwf : object.Wf)
    (hle : result.n ≤ toUint32 data.length)
    (herror : ∀ call ∈ written.2, call.isError = false) :
    acceptedBytes written.2 ++ written.1.queued = object.queued ++ data ↔
      ∀ call ∈ written.2,
        call.result.n ≠ 0 ∧ (call.result.n = toInt data.length → call.result.n = data.length) := by
  cases h with
  | empty hdata => simp [hdata]
  | queued hdata => simp [queued_pushBack hwf]
  | full hdata hqueue hn =>
    have hlength := List.length_pos_iff.mpr hdata
    have hsize := toUint32_le data.length
    simp only [acceptedBytes_cons, acceptedBytes_nil, SocketCall.accepted, List.append_nil,
      hwf.queued_eq_nil hqueue, List.nil_append, List.forall_mem_singleton, hn, forall_const]
    rw [List.take_eq_self_iff]
    omega
  | part hdata hqueue hn hpos =>
    simp only [acceptedBytes_cons, acceptedBytes_nil, SocketCall.accepted, List.append_nil,
      queued_enableWriteEvent, queued_of_zero hqueue, hwf.queued_eq_nil hqueue, List.nil_append,
      List.take_append_drop, List.forall_mem_singleton, true_iff]
    exact ⟨hpos.ne', fun h => absurd h hn⟩
  | blocked hdata hqueue hn hpos hblocked =>
    have hminus : result.n = -1 := by
      simp only [SocketCall.isBlocked, decide_eq_true_eq] at hblocked
      exact hblocked.1
    simp only [acceptedBytes_cons, acceptedBytes_nil, SocketCall.accepted, List.append_nil,
      queued_enableWriteEvent, queued_of_zero hqueue, hwf.queued_eq_nil hqueue, List.nil_append,
      List.forall_mem_singleton, hminus]
    refine iff_of_true rfl ⟨by decide, fun h => absurd (hminus.trans h) hn⟩
  | dropped hdata hqueue hn hpos hblocked =>
    have hzero := eq_zero_of_not_error hpos hblocked (herror _ (.head _))
    have hzero : result.n = 0 := hzero
    simp only [acceptedBytes_cons, acceptedBytes_nil, SocketCall.accepted, List.append_nil,
      hwf.queued_eq_nil hqueue, List.nil_append, List.forall_mem_singleton, hzero, ne_eq,
      not_true_eq_false, false_and, iff_false]
    simpa using hdata.symm

end Write

/-! ## `check_to_write` -/

/-- The loop leaves the queue well formed, and takes nothing from the stream. -/
theorem writeLoop_spec (hmost : ∀ outcome size, (writeToSocketIo outcome size).n ≤ size)
    {queue : List (List UInt8)} {offset : ℕ} (hne : ∀ data ∈ queue, data ≠ [])
    (hinside : OffsetInside queue offset) (outcomes : List SocketOutcome) :
    let loop := writeLoop writeToSocketIo queue offset outcomes
    (∀ data ∈ loop.1.writeQueue, data ≠ []) ∧
      OffsetInside loop.1.writeQueue loop.1.writeOffset ∧
      acceptedBytes loop.2 ++ loop.1.writeQueue.flatten.drop loop.1.writeOffset =
        queue.flatten.drop offset := by
  induction queue generalizing offset outcomes with
  | nil => exact ⟨hne, hinside, rfl⟩
  | cons data queue ih =>
    have hlt : offset < data.length := hinside
    have htake := hmost (outcomes.headD .wouldBlock) (toUint32 (data.length - offset))
    have hsize := toUint32_le (data.length - offset)
    simp only [writeLoop]
    generalize writeToSocketIo (outcomes.headD .wouldBlock) (toUint32 (data.length - offset)) =
      result at htake ⊢
    have hfront : (data :: queue).flatten.drop offset = data.drop offset ++ queue.flatten := by
      rw [List.flatten_cons, List.drop_append_of_le_length hlt.le]
    split
    · next hpos =>
      split
      · next hend =>
        have hrest := List.forall_mem_cons.mp hne
        obtain ⟨hne', hinside', hsame⟩ :=
          ih hrest.2 (offsetInside_zero hrest.2) outcomes.tail
        refine ⟨hne', hinside', ?_⟩
        have hall : (data.drop offset).take result.n.toNat = data.drop offset :=
          List.take_of_length_le (by rw [List.length_drop]; omega)
        rw [acceptedBytes_cons, List.append_assoc, hsame, SocketCall.accepted, hall, hfront,
          List.drop_zero]
      · next hend =>
        have hmid : offset + result.n.toNat < data.length := by omega
        refine ⟨hne, hmid, ?_⟩
        rw [acceptedBytes_cons, acceptedBytes_nil, List.append_nil, SocketCall.accepted, hfront,
          List.flatten_cons, List.drop_append_of_le_length hmid.le, ← List.drop_drop,
          ← List.append_assoc, List.take_append_drop]
    · next hpos =>
      have hnone : SocketCall.accepted ⟨data.drop offset, result⟩ = [] := by
        rw [SocketCall.accepted, Int.toNat_of_nonpos (not_lt.mp hpos), List.take_zero]
      split <;> exact ⟨hne, hinside, by simp [hnone]⟩

/-- The loop asks for a close exactly when one of its calls reports 0. -/
theorem writeLoop_code_iff {queue : List (List UInt8)} {offset : ℕ} {outcomes : List SocketOutcome}
    (herror : ∀ call ∈ (writeLoop writeToSocketIo queue offset outcomes).2, call.isError = false) :
    (writeLoop writeToSocketIo queue offset outcomes).1.code ≠ -1 ↔
      ∀ call ∈ (writeLoop writeToSocketIo queue offset outcomes).2, call.result.n ≠ 0 := by
  induction queue generalizing offset outcomes with
  | nil => simp [writeLoop]
  | cons data queue ih =>
    simp only [writeLoop] at herror ⊢
    generalize writeToSocketIo (outcomes.headD .wouldBlock) (toUint32 (data.length - offset)) =
      result at herror ⊢
    split at herror
    · next hpos =>
      rw [if_pos hpos]
      split at herror
      · next hend =>
        have hrest := (List.forall_mem_cons.mp herror).2
        rw [if_pos hend]
        simp only [List.forall_mem_cons, ih hrest, hpos.ne', ne_eq, not_false_eq_true, true_and]
      · next hend =>
        rw [if_neg hend]
        simp [hpos.ne']
    · next hpos =>
      rw [if_neg hpos]
      split at herror
      · next hblocked =>
        have hminus : result.n = -1 := by
          simp only [SocketCall.isBlocked, decide_eq_true_eq] at hblocked
          exact hblocked.1
        rw [if_pos hblocked]
        simp [hminus]
      · next hblocked =>
        have hzero := eq_zero_of_not_error hpos (by simpa using hblocked) (herror _ (.head _))
        have hzero : result.n = 0 := hzero
        rw [if_neg hblocked]
        simp [hzero]

theorem checkToWrite_wf (hmost : ∀ outcome size, (writeToSocketIo outcome size).n ≤ size)
    {object : SystemIOObject} (hwf : object.Wf) (outcomes : List SocketOutcome) :
    (object.checkToWrite writeToSocketIo outcomes).object.Wf := by
  obtain ⟨hne, hinside, -⟩ := writeLoop_spec writeToSocketIo hmost hwf.nonempty hwf.inside outcomes
  unfold checkToWrite
  dsimp only
  split
  · exact ⟨by simpa using hne, by simpa using hinside⟩
  · exact ⟨hne, hinside⟩

theorem checkToWrite_kept (hmost : ∀ outcome size, (writeToSocketIo outcome size).n ≤ size)
    {object : SystemIOObject} (hwf : object.Wf) (outcomes : List SocketOutcome) :
    acceptedBytes (object.checkToWrite writeToSocketIo outcomes).calls ++
        (object.checkToWrite writeToSocketIo outcomes).object.queued = object.queued := by
  obtain ⟨-, -, hsame⟩ := writeLoop_spec writeToSocketIo hmost hwf.nonempty hwf.inside outcomes
  unfold checkToWrite
  dsimp only
  split <;> simpa [queued] using hsame

end SystemIOObject

/-! ## Runs -/

/-- An object, the data given to `write`, and the bytes its socket has taken. -/
structure Outgoing where
  object : SystemIOObject
  written : List UInt8
  accepted : List UInt8

/-- What happens to an object: a `write`, an `EPOLLOUT`, a change of its state (the end of the
handshake). -/
inductive OutgoingEvent
  | write (data : List UInt8) (outcome : SocketOutcome)
  | checkToWrite (outcomes : List SocketOutcome)
  | setState (state : IOState)
  deriving DecidableEq, Repr

namespace Outgoing

/-- A new object. -/
def start : Outgoing := ⟨.fresh, [], []⟩

variable (writeToSocketIo : WriteToSocketIo)

/-- **A step.** -/
def step (s : Outgoing) : OutgoingEvent → Outgoing
  | .write data outcome =>
    let written := s.object.write writeToSocketIo outcome data
    ⟨written.1, s.written ++ data, s.accepted ++ acceptedBytes written.2⟩
  | .checkToWrite outcomes =>
    let checked := s.object.checkToWrite writeToSocketIo outcomes
    { s with object := checked.object, accepted := s.accepted ++ acceptedBytes checked.calls }
  | .setState state => { s with object.currentState := state }

/-- The calls of the socket in a step. -/
def calls (s : Outgoing) : OutgoingEvent → List SocketCall
  | .write data outcome => (s.object.write writeToSocketIo outcome data).2
  | .checkToWrite outcomes => (s.object.checkToWrite writeToSocketIo outcomes).calls
  | .setState _ => []

/-- `check_to_write` asks for the connection to be closed. -/
def AsksClose (s : Outgoing) : OutgoingEvent → Prop
  | .checkToWrite outcomes => (s.object.checkToWrite writeToSocketIo outcomes).code = -1
  | _ => False

/-- No call of the step has an error result. -/
def NoError (s : Outgoing) (event : OutgoingEvent) : Prop :=
  ∀ call ∈ calls writeToSocketIo s event, call.isError = false

/-- What was taken and what waits are what was written, and no close is asked for. -/
def StreamKept (s : Outgoing) (event : OutgoingEvent) : Prop :=
  (step writeToSocketIo s event).accepted ++ (step writeToSocketIo s event).object.queued =
      (step writeToSocketIo s event).written ∧
    ¬ AsksClose writeToSocketIo s event

/-- No call reports 0; and the count of a `write` that looks full, `static_cast<int>` of the size,
is the size. -/
def NeverZero (s : Outgoing) (event : OutgoingEvent) : Prop :=
  ∀ call ∈ calls writeToSocketIo s event,
    call.result.n ≠ 0 ∧
      match event with
      | .write data _ => call.result.n = toInt data.length → call.result.n = data.length
      | _ => True

instance (s : Outgoing) (event : OutgoingEvent) : Decidable (NoError writeToSocketIo s event) :=
  inferInstanceAs (Decidable (∀ call ∈ _, _))

/-- What a convention of `write_to_socket_io` promises: an `int`, and no more than the size. -/
structure Counts : Prop where
  le_size : ∀ outcome size, (writeToSocketIo outcome size).n ≤ size
  isInt : ∀ outcome size, (writeToSocketIo outcome size).n < 2 ^ 31

/-- What a run keeps while its stream is kept. -/
structure Inv (s : Outgoing) : Prop where
  wf : s.object.Wf
  stream : s.accepted ++ s.object.queued = s.written

theorem inv_start : start.Inv := ⟨SystemIOObject.wf_fresh, rfl⟩

variable {writeToSocketIo} {s : Outgoing}

/-- The queue stays well formed, whatever happens. -/
theorem wf_step (hcounts : Counts writeToSocketIo) (h : s.object.Wf) (event : OutgoingEvent) :
    (step writeToSocketIo s event).object.Wf := by
  cases event with
  | write data outcome =>
    exact (SystemIOObject.written_write writeToSocketIo outcome s.object data).wf h
      (hcounts.le_size _ _) (hcounts.isInt _ _)
  | checkToWrite outcomes => exact SystemIOObject.checkToWrite_wf _ hcounts.le_size h outcomes
  | setState state => exact ⟨h.nonempty, h.inside⟩

theorem inv_step (hcounts : Counts writeToSocketIo) {event : OutgoingEvent} (h : s.Inv)
    (hkept : StreamKept writeToSocketIo s event) : (step writeToSocketIo s event).Inv :=
  ⟨wf_step hcounts h.wf event, hkept.1⟩

/-- **One step keeps the stream exactly when none of its calls reports 0.** -/
theorem streamKept_iff (hcounts : Counts writeToSocketIo) {event : OutgoingEvent} (h : s.Inv)
    (herror : NoError writeToSocketIo s event) :
    StreamKept writeToSocketIo s event ↔ NeverZero writeToSocketIo s event := by
  cases event with
  | write data outcome =>
    have hkept := (SystemIOObject.written_write writeToSocketIo outcome s.object data).kept_iff h.wf
      (hcounts.le_size _ _) herror
    simp only [StreamKept, AsksClose, not_false_eq_true, and_true, step, ← h.stream,
      List.append_assoc, List.append_cancel_left_eq, hkept]
    exact Iff.rfl
  | checkToWrite outcomes =>
    have hkept := SystemIOObject.checkToWrite_kept writeToSocketIo hcounts.le_size h.wf outcomes
    have hcode : ¬ AsksClose writeToSocketIo s (.checkToWrite outcomes) ↔ _ :=
      SystemIOObject.writeLoop_code_iff writeToSocketIo herror
    simp only [StreamKept, step, List.append_assoc, hkept, h.stream, true_and, hcode, NeverZero,
      and_true]
    exact Iff.rfl
  | setState state =>
    refine iff_of_true ⟨?_, not_false⟩ fun call hcall => absurd hcall List.not_mem_nil
    simpa [step, SystemIOObject.queued] using h.stream

/-- **The stream is kept along a run exactly when no call reports 0.** -/
theorem along_streamKept_iff (hcounts : Counts writeToSocketIo) {events : List OutgoingEvent}
    (herror : Run.Along (step writeToSocketIo) (NoError writeToSocketIo) start events) :
    Run.Along (step writeToSocketIo) (StreamKept writeToSocketIo) start events ↔
      Run.Along (step writeToSocketIo) (NeverZero writeToSocketIo) start events :=
  Run.along_iff_of_invariant
    (fun _ _ h hE hZ => inv_step hcounts h ((streamKept_iff hcounts h hE).mpr hZ))
    (fun _ _ h hE => streamKept_iff hcounts h hE) inv_start herror

end Outgoing

/-! ## `TlsWrapper::write` -/

section Tls

theorem tlsWrite_le (outcome : SocketOutcome) (size : ℕ) :
    (tlsWriteToSocketIo outcome size).n ≤ max 0 (toInt size) := by
  simp only [tlsWriteToSocketIo, TlsWrapper.write]
  cases outcome <;> split <;> (try split) <;> simp

theorem tls_counts : Outgoing.Counts tlsWriteToSocketIo where
  le_size outcome size := (tlsWrite_le outcome size).trans (by have := toInt_le size; omega)
  isInt outcome size := (tlsWrite_le outcome size).trans_lt (by
    have hlt : toUint32 size < 2 ^ 32 := Nat.mod_lt _ (by decide)
    unfold toInt
    split <;> omega)

instance (s : Outgoing) (event : OutgoingEvent) :
    Decidable (Outgoing.AsksClose tlsWriteToSocketIo s event) :=
  match event with
  | .write _ _ => .isFalse not_false
  | .checkToWrite _ => inferInstanceAs (Decidable (_ = _))
  | .setState _ => .isFalse not_false

instance (s : Outgoing) (event : OutgoingEvent) :
    Decidable (Outgoing.StreamKept tlsWriteToSocketIo s event) :=
  inferInstanceAs (Decidable (_ ∧ ¬ _))

/-- **The outgoing stream of an object with a `TlsWrapper`** is kept along a run without errors
exactly when none of its calls finds the socket blocked, and no `write` gets 32 bits of its size
reported as all of it. -/
theorem tls_streamKept_iff {events : List OutgoingEvent}
    (herror : Run.Along (Outgoing.step tlsWriteToSocketIo) (Outgoing.NoError tlsWriteToSocketIo)
      .start events) :
    Run.Along (Outgoing.step tlsWriteToSocketIo) (Outgoing.StreamKept tlsWriteToSocketIo) .start
        events ↔
      Run.Along (Outgoing.step tlsWriteToSocketIo) (Outgoing.NeverZero tlsWriteToSocketIo) .start
        events :=
  Outgoing.along_streamKept_iff tls_counts herror

/-- Data that waits for the handshake, then a partial write and the rest of it. -/
theorem tls_streamKept_iff_partial :
    let events : List OutgoingEvent :=
      [.setState .connectingAndHandshaking, .write [1, 2, 3] .fails, .setState .readingAndWriting,
        .checkToWrite [.takes 1], .write [4] .fails, .checkToWrite [.takes 7, .takes 0]]
    Run.Along (Outgoing.step tlsWriteToSocketIo) (Outgoing.StreamKept tlsWriteToSocketIo) .start
        events ↔
      Run.Along (Outgoing.step tlsWriteToSocketIo) (Outgoing.NeverZero tlsWriteToSocketIo) .start
        events :=
  tls_streamKept_iff (by decide)

/-- A `write` that would block loses its data. -/
theorem tls_stream_lost :
    ¬ ∀ events : List OutgoingEvent,
      Run.Along (Outgoing.step tlsWriteToSocketIo) (Outgoing.NoError tlsWriteToSocketIo) .start
          events →
        Run.Along (Outgoing.step tlsWriteToSocketIo) (Outgoing.StreamKept tlsWriteToSocketIo) .start
          events :=
  fun h => absurd (h [.setState .readingAndWriting, .write [1] .wouldBlock] (by decide)) (by decide)

end Tls

/-! ## `::write`

A socket that would block is reported as -1 with `EAGAIN`, which both functions know. -/

section Raw

theorem raw_counts : Outgoing.Counts rawWriteToSocketIo where
  le_size outcome size := by cases outcome <;> simp [rawWriteToSocketIo]
  isInt outcome size := by cases outcome <;> simp [rawWriteToSocketIo]

/-- `::write` reports 0 for no bytes only. -/
theorem raw_ne_zero (outcome : SocketOutcome) {size : ℕ} (h : size ≠ 0) :
    (rawWriteToSocketIo outcome size).n ≠ 0 := by
  cases outcome with
  | takes k =>
    simp only [rawWriteToSocketIo]
    omega
  | wouldBlock => simp [rawWriteToSocketIo]
  | fails => simp [rawWriteToSocketIo]

/-- The items of a queue are shorter than an `int` counts. -/
def ShortItems (queue : List (List UInt8)) : Prop := ∀ data ∈ queue, data.length < 2 ^ 31

namespace SystemIOObject

theorem raw_writeLoop {queue : List (List UInt8)} {offset : ℕ} (hshort : ShortItems queue)
    (hne : ∀ data ∈ queue, data ≠ []) (hinside : OffsetInside queue offset)
    (outcomes : List SocketOutcome) :
    ShortItems (writeLoop rawWriteToSocketIo queue offset outcomes).1.writeQueue ∧
      ∀ call ∈ (writeLoop rawWriteToSocketIo queue offset outcomes).2, call.result.n ≠ 0 := by
  induction queue generalizing offset outcomes with
  | nil => exact ⟨hshort, fun call hcall => absurd hcall List.not_mem_nil⟩
  | cons data queue ih =>
    obtain ⟨hdata, hqueue⟩ := List.forall_mem_cons.mp hshort
    have hlt : offset < data.length := hinside
    have hsize : toUint32 (data.length - offset) ≠ 0 := by
      rw [toUint32_of_lt (by omega)]
      omega
    have hcall := raw_ne_zero (outcomes.headD .wouldBlock) hsize
    simp only [writeLoop]
    split
    · split
      · have hrest := (List.forall_mem_cons.mp hne).2
        obtain ⟨hshort', hcalls⟩ := ih hqueue hrest (offsetInside_zero hrest) outcomes.tail
        exact ⟨hshort', List.forall_mem_cons.mpr ⟨hcall, hcalls⟩⟩
      · exact ⟨hshort, List.forall_mem_singleton.mpr hcall⟩
    · split <;> exact ⟨hshort, List.forall_mem_singleton.mpr hcall⟩

theorem Written.shortItems {object : SystemIOObject} {data : List UInt8} {result : WriteResult}
    {written : SystemIOObject × List SocketCall} (h : Written object data result written)
    (hshort : ShortItems object.writeQueue) (hdata : data.length < 2 ^ 31) :
    ShortItems written.1.writeQueue := by
  have hpush : ∀ rest : List UInt8, rest.length < 2 ^ 31 →
      ShortItems (object.writeQueue ++ [rest]) := fun rest hrest d hd => by
    rcases List.mem_append.mp hd with hd | hd
    · exact hshort d hd
    · rwa [List.mem_singleton.mp hd]
  cases h with
  | empty => exact hshort
  | queued => simpa using hpush data hdata
  | full => exact hshort
  | part =>
    simpa using hpush (data.drop result.n.toNat) (by rw [List.length_drop]; omega)
  | blocked => simpa using hpush data hdata
  | dropped => exact hshort

theorem Written.calls_eq {object : SystemIOObject} {data : List UInt8} {result : WriteResult}
    {written : SystemIOObject × List SocketCall} (h : Written object data result written) :
    data ≠ [] ∧ written.2 = [⟨data, result⟩] ∨ written.2 = [] := by
  cases h with
  | empty => exact .inr rfl
  | queued => exact .inr rfl
  | full hdata | part hdata | blocked hdata | dropped hdata => exact .inl ⟨hdata, rfl⟩

end SystemIOObject

namespace Outgoing

/-- The data of a `write` is shorter than an `int` counts. -/
def ShortData : OutgoingEvent → Prop
  | .write data _ => data.length < 2 ^ 31
  | _ => True

theorem raw_neverZero {s : Outgoing} (hwf : s.object.Wf) (hshort : ShortItems s.object.writeQueue)
    {event : OutgoingEvent} (hdata : ShortData event) : NeverZero rawWriteToSocketIo s event := by
  cases event with
  | write data outcome =>
    have hlength : data.length < 2 ^ 31 := hdata
    intro call hcall
    rcases (SystemIOObject.written_write rawWriteToSocketIo outcome s.object data).calls_eq with
      ⟨hne, hcalls⟩ | hcalls
    · rw [calls, hcalls] at hcall
      rw [List.mem_singleton.mp hcall]
      have hpos := List.length_pos_iff.mpr hne
      refine ⟨raw_ne_zero outcome ?_, fun h => h.trans (toInt_of_lt hlength)⟩
      rw [toUint32_of_lt hlength]
      omega
    · rw [calls, hcalls] at hcall
      exact absurd hcall List.not_mem_nil
  | checkToWrite outcomes =>
    exact fun call hcall => ⟨(SystemIOObject.raw_writeLoop hshort hwf.nonempty hwf.inside
      outcomes).2 call hcall, trivial⟩
  | setState state => exact fun call hcall => absurd hcall List.not_mem_nil

theorem raw_shortItems {s : Outgoing} (hwf : s.object.Wf)
    (hshort : ShortItems s.object.writeQueue) {event : OutgoingEvent} (hdata : ShortData event) :
    ShortItems (step rawWriteToSocketIo s event).object.writeQueue := by
  cases event with
  | write data outcome =>
    exact (SystemIOObject.written_write rawWriteToSocketIo outcome s.object data).shortItems hshort
      hdata
  | checkToWrite outcomes =>
    have hloop := (SystemIOObject.raw_writeLoop hshort hwf.nonempty hwf.inside outcomes).1
    simp only [step, SystemIOObject.checkToWrite]
    split
    · simpa using hloop
    · exact hloop
  | setState state => exact hshort

/-- **With the convention of `::write` the stream is always kept**, for data shorter than an `int`
counts. -/
theorem raw_streamKept {events : List OutgoingEvent}
    (herror : Run.Along (step rawWriteToSocketIo) (NoError rawWriteToSocketIo) start events)
    (hshort : ∀ event ∈ events, ShortData event) :
    Run.Along (step rawWriteToSocketIo) (StreamKept rawWriteToSocketIo) start events := by
  rw [along_streamKept_iff raw_counts herror]
  have hdata : Run.Along (step rawWriteToSocketIo) (fun _ event => ShortData event) start events :=
    Run.along_of_mem hshort
  exact Run.along_of_invariant
    (I := fun s => s.object.Wf ∧ ShortItems s.object.writeQueue)
    (fun s event h hE => ⟨wf_step raw_counts h.1 event, raw_shortItems h.1 h.2 hE⟩)
    (fun s event h hE => raw_neverZero h.1 h.2 hE)
    ⟨SystemIOObject.wf_fresh, fun data h => absurd h List.not_mem_nil⟩ hdata

end Outgoing

end Raw

end TradingEngine
