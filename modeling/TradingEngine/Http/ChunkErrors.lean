import TradingEngine.Http.ResponseReader

/-!
# Http/ChunkErrors — what comes behind an error of a chunked body

`parse_chunked_body` returns `Error` for a size line without a size and for data without a line end.
The bytes of a missing line end stay in the buffer, so the error comes again with every call; the
size line is gone, and the next call goes on behind it.

* `chunkErrors_iff` — the errors of a stream are final and the outcome does not depend on the cut
  exactly for the streams without such a size line, and without a head behind a response for which
  `std::stoi` throws.
-/

namespace TradingEngine

open Ascii Incremental HttpsClientResponse

/-! ## The errors of a call -/

/-- Whether `parse_chunked_body` returns `Error` in the second part of the loop of `parse_all`, or
behind it. -/
def bodyError (goOn : List UInt8 → Bool) (state : ParserState) (buffer : List UInt8) : Bool :=
  if state.head.isChunked then
    match parseChunkedBody state buffer with
    | (.done, _, rest) => goOn rest
    | (.needMoreData, _, _) => false
    | (.error, _, _) => true
  else if buffer.length < state.bodySize then false
  else goOn (buffer.drop state.bodySize)

/-- Whether `parse_chunked_body` returns `Error` in the loop of `parse_all`. -/
def errorLoop : ℕ → ParserState → List UInt8 → Bool
  | 0, _, _ => false
  | fuel + 1, state, buffer =>
    if state.headerParsed then bodyError (errorLoop fuel .reset) state buffer
    else
      match headerTurn state buffer with
      | .wait => false
      | .throws => false
      | .complete _ rest => errorLoop fuel .reset rest
      | .body state' rest => bodyError (errorLoop fuel .reset) state' rest

/-- What the calls of a run come to: the responses that are returned, whether
`parse_chunked_body` has returned `Error`, and the parser, unless `std::stoi` has thrown. -/
structure CallsOutcome where
  returned : List HttpsClientResponse
  error : Bool
  parser : Option HttpsClientResponseParser

namespace HttpsClientResponseParser

/-- `parse_all` sees an `Error`. -/
def parseError (parser : HttpsClientResponseParser) : Bool :=
  errorLoop (3 * parser.buffer.length + 3) parser.state parser.buffer

/-- `append_data` and `parse_all` for each piece. -/
def readPieces (parser : HttpsClientResponseParser) : List (List UInt8) → CallsOutcome
  | [] => ⟨[], false, some parser⟩
  | piece :: pieces =>
    let call := (parser.appendData piece).parseAll
    let error := (parser.appendData piece).parseError
    match call.1 with
    | none => ⟨[], error, none⟩
    | some responses =>
      let rest := call.2.readPieces pieces
      ⟨responses ++ rest.returned, error || rest.error, rest.parser⟩

end HttpsClientResponseParser

open HttpsClientResponseParser

/-- **An error is final**: however the stream is cut and whatever comes behind, no later call
returns a response with a body. -/
def ErrorsFinal (stream : List UInt8) : Prop :=
  ∀ pieces piece parser, (pieces ++ [piece]).flatten <+: stream →
    (fresh.readPieces pieces).parser = some parser →
    (parser.appendData piece).parseError = true →
    ∀ further, ∀ response ∈
      ((parser.appendData piece).parseAll.2.readPieces further).returned, response.body = []

/-- **The cut does not matter**: the same responses are returned, and an error occurs or not. -/
def CutIndependent (stream : List UInt8) : Prop :=
  ∀ pieces pieces', pieces.flatten = stream → pieces'.flatten = stream →
    (fresh.readPieces pieces).returned = (fresh.readPieces pieces').returned ∧
      (fresh.readPieces pieces).error = (fresh.readPieces pieces').error

/-- A size line is awaited. -/
def ParserState.AwaitsSize (state : ParserState) : Prop :=
  state.headerParsed = true ∧ state.head.isChunked = true ∧ state.chunkState = .readSizeLine

/-- **A size line without a size**: behind some bytes of the stream a size line is awaited, with
nothing left over, and the line that comes is none. -/
def MeetsBadSizeLine (stream : List UInt8) : Prop :=
  ∃ front behind line rest state responses, stream = front ++ behind ∧
    (fresh.appendData front).parseAll = (some responses, ⟨[], state⟩) ∧
    state.AwaitsSize ∧ cut crlf behind = some (line, rest) ∧ sizeOfLine line = none

/-- **A head for which `std::stoi` throws**, not the first. -/
def ThrowsBehindResponse (stream : List UInt8) : Prop :=
  ∃ front behind block rest state responses, front ≠ [] ∧ stream = front ++ behind ∧
    (fresh.appendData front).parseAll = (some responses, ⟨[], state⟩) ∧
    state.headerParsed = false ∧
    cut headEnd behind = some (block, rest) ∧ parseHeader block state.head = .throws

/-! ## Turns look at what they use -/

/-- **What a turn of `parse_chunked_body` can do**: wait, find one of the two errors, or use a token
and go on or be done. -/
theorem chunkTurn_cases (state : ParserState) (buffer : List UInt8) :
    chunkTurn state buffer = .result .needMoreData state buffer ∨
    (state.chunkState = .readSizeLine ∧ ∃ line rest, cut crlf buffer = some (line, rest) ∧
      sizeOfLine line = none ∧ chunkTurn state buffer = .result .error state rest) ∨
    (state.chunkState = .readDataCRLF ∧ 2 ≤ buffer.length ∧ buffer.take 2 ≠ crlf) ∨
    (∃ t rest state', buffer = t ++ rest ∧
      ∀ more, chunkTurn state (t ++ more) = .more state' more) ∨
    ∃ t rest state', buffer = t ++ rest ∧
      ∀ more, chunkTurn state (t ++ more) = .result .done state' more := by
  cases hchunk : state.chunkState with
  | readSizeLine =>
    cases hcut : cut crlf buffer with
    | none => exact .inl (by simp only [chunkTurn, hchunk, hcut])
    | some parts =>
      obtain ⟨line, rest⟩ := parts
      cases hsize : sizeOfLine line with
      | none => exact .inr (.inl ⟨rfl, line, rest, rfl, hsize, by
          simp only [chunkTurn, hchunk, hcut, hsize]⟩)
      | some size =>
        refine .inr (.inr (.inr (.inl ⟨line ++ crlf, rest,
          { state with
            chunkBytesRemaining := size
            chunkState := if size = 0 then .readTrailers else .readData },
          eq_of_cut hcut, fun more => ?_⟩)))
        have hmore : cut crlf (line ++ crlf ++ more) = some (line, more) := cut_front hcut more
        simp only [chunkTurn, hchunk, hmore, hsize]
  | readData =>
    by_cases hlt : buffer.length < state.chunkBytesRemaining
    · exact .inl (by simp only [chunkTurn, hchunk, if_pos hlt])
    · refine .inr (.inr (.inr (.inl ⟨buffer.take state.chunkBytesRemaining, _,
        { state.withBody (state.head.response.body ++ buffer.take state.chunkBytesRemaining) with
          chunkState := .readDataCRLF },
        (List.take_append_drop _ _).symm, fun more => ?_⟩)))
      have hlength : (buffer.take state.chunkBytesRemaining).length = state.chunkBytesRemaining :=
        List.length_take_of_le (Nat.not_lt.mp hlt)
      have hlong : ¬ (buffer.take state.chunkBytesRemaining ++ more).length <
          state.chunkBytesRemaining := by
        rw [List.length_append, hlength]
        omega
      simp only [chunkTurn, hchunk, if_neg hlong, List.take_left' hlength, List.drop_left' hlength]
  | readDataCRLF =>
    by_cases hlt : buffer.length < 2
    · exact .inl (by simp only [chunkTurn, hchunk, if_pos hlt])
    by_cases hne : buffer.take 2 = crlf
    · refine .inr (.inr (.inr (.inl ⟨crlf, buffer.drop 2,
        { state with chunkState := .readSizeLine, chunkBytesRemaining := 0 }, ?_, fun more => ?_⟩)))
      · rw [← hne, List.take_append_drop]
      · simp only [chunkTurn, hchunk]
        rfl
    · exact .inr (.inr (.inl ⟨rfl, Nat.not_lt.mp hlt, hne⟩))
  | readTrailers =>
    by_cases hlt : buffer.length < 2
    · exact .inl (by simp only [chunkTurn, hchunk, if_pos hlt])
    by_cases hempty : buffer.take 2 = crlf
    · refine .inr (.inr (.inr (.inr ⟨crlf, buffer.drop 2, { state with chunkState := .done }, ?_,
        fun more => ?_⟩)))
      · rw [← hempty, List.take_append_drop]
      · simp only [chunkTurn, hchunk]
        rfl
    cases hcut : cut headEnd buffer with
    | none => exact .inl (by simp only [chunkTurn, hchunk, if_neg hlt, if_neg hempty, hcut])
    | some parts =>
      obtain ⟨block, rest⟩ := parts
      refine .inr (.inr (.inr (.inr ⟨block ++ headEnd, rest, { state with chunkState := .done },
        eq_of_cut hcut, fun more => ?_⟩)))
      have hmore : cut headEnd (block ++ headEnd ++ more) = some (block, more) :=
        cut_front hcut more
      have hlength : 2 ≤ (block ++ headEnd).length := by
        rw [List.length_append]
        exact Nat.le_add_left_of_le (by decide)
      have hlong : ¬ (block ++ headEnd ++ more).length < 2 := by
        rw [List.length_append]
        omega
      have hfirst : (block ++ headEnd ++ more).take 2 ≠ crlf := by
        rwa [eq_of_cut hcut, List.take_append_of_le_length hlength,
          ← List.take_append_of_le_length hlength] at hempty
      simp only [chunkTurn, hchunk, if_neg hlong, if_neg hfirst, hmore]
  | done =>
    refine .inr (.inr (.inr (.inr ⟨[], buffer, state, rfl, fun more => ?_⟩)))
    simp only [chunkTurn, hchunk, List.nil_append]

/-- **What the first part of the loop of `parse_all` can do.** -/
theorem headerTurn_cases (state : ParserState) (buffer : List UInt8) :
    headerTurn state buffer = .wait ∨
    (headerTurn state buffer = .throws ∧ ∃ block rest, cut headEnd buffer = some (block, rest) ∧
      parseHeader block state.head = .throws) ∨
    (∃ t rest response, buffer = t ++ rest ∧
      ∀ more, headerTurn state (t ++ more) = .complete response more) ∨
    ∃ t rest state', buffer = t ++ rest ∧ state'.headerParsed = true ∧
      ∀ more, headerTurn state (t ++ more) = .body state' more := by
  cases hcut : cut headEnd buffer with
  | none => exact .inl (by rw [headerTurn, hcut])
  | some parts =>
    obtain ⟨block, rest⟩ := parts
    have hmore (more : List UInt8) : cut headEnd (block ++ headEnd ++ more) = some (block, more) :=
      cut_front hcut more
    cases hparse : parseHeader block state.head with
    | throws =>
      exact .inr (.inl ⟨by rw [headerTurn, hcut]; simp only [hparse], block, rest, rfl, hparse⟩)
    | rejected => exact .inl (by rw [headerTurn, hcut]; simp only [hparse])
    | parsed head =>
      by_cases hcomplete : ¬ head.isChunked ∧ head.contentLength = 0
      · refine .inr (.inr (.inl ⟨block ++ headEnd, rest,
          ({ state with head := head, headerParsed := true } : ParserState).completed,
          eq_of_cut hcut, fun more => ?_⟩))
        simp only [headerTurn, hmore, hparse, if_pos hcomplete]
      · refine .inr (.inr (.inr ⟨block ++ headEnd, rest,
          { state with head := head, headerParsed := true }, eq_of_cut hcut, rfl, fun more => ?_⟩))
        simp only [headerTurn, hmore, hparse, if_neg hcomplete]

/-- The turn of the reader is an `Error` of `parse_chunked_body`. -/
def errorAt : Option ParserState → List UInt8 → Bool
  | none, _ => false
  | some state, buffer =>
    state.headerParsed && state.head.isChunked &&
      match chunkTurn state buffer with
      | .result .error _ _ => true
      | _ => false

/-- **What a turn of the reader can do**: use a token and go on, wait (for ever if it is the error
of a line end), throw, or lose a size line. -/
theorem responseStep_cases (state : ParserState) (buffer : List UInt8) :
    (∃ t rest state' out, buffer = t ++ rest ∧
      ∀ more, responseReader.step (some state) (t ++ more) = .next (some state') out more) ∨
    (responseReader.step (some state) buffer = .stop (some state) buffer ∧
      (errorAt (some state) buffer = true → ∀ more,
        responseReader.step (some state) (buffer ++ more) = .stop (some state) (buffer ++ more) ∧
          errorAt (some state) (buffer ++ more) = true)) ∨
    (responseReader.step (some state) buffer = .stop none buffer ∧
      errorAt (some state) buffer = false ∧ state.headerParsed = false ∧
      ∃ block rest, cut headEnd buffer = some (block, rest) ∧
        parseHeader block state.head = .throws) ∨
    (state.AwaitsSize ∧ errorAt (some state) buffer = true ∧
      ∃ line rest, cut crlf buffer = some (line, rest) ∧ sizeOfLine line = none ∧
        responseReader.step (some state) buffer = .stop (some state) rest) := by
  by_cases hparsed : state.headerParsed = true
  · by_cases hchunked : state.head.isChunked = true
    · rcases chunkTurn_cases state buffer with hwait | ⟨hchunk, line, rest, hcut, hsize, hbad⟩ |
        ⟨hchunk, hlength, hne⟩ | ⟨t, rest, state', hbuffer, hmore⟩ |
        ⟨t, rest, state', hbuffer, hdone⟩
      · refine .inr (.inl ⟨step_returned _ (by decide) hparsed hchunked hwait, fun herror => ?_⟩)
        simp [errorAt, hwait] at herror
      · refine .inr (.inr (.inr ⟨⟨hparsed, hchunked, hchunk⟩, ?_, line, rest, hcut, hsize,
          step_returned _ (by decide) hparsed hchunked hbad⟩))
        simp [errorAt, hparsed, hchunked, hbad]
      · have hturn (more : List UInt8) :
            chunkTurn state (buffer ++ more) = .result .error state (buffer ++ more) := by
          have hlong : ¬ (buffer ++ more).length < 2 := by
            rw [List.length_append]
            omega
          have hfirst : (buffer ++ more).take 2 ≠ crlf := by
            rwa [List.take_append_of_le_length hlength]
          simp only [chunkTurn, hchunk, if_neg hlong, if_pos hfirst]
        have hstop (more : List UInt8) :=
          step_returned _ (by decide) hparsed hchunked (hturn more)
        refine .inr (.inl ⟨?_, fun _ more => ⟨hstop more, ?_⟩⟩)
        · simpa using hstop []
        · simp [errorAt, hparsed, hchunked, hturn]
      · exact .inl ⟨t, rest, state', [], hbuffer, fun more =>
          step_more hparsed hchunked (hmore more)⟩
      · exact .inl ⟨t, rest, .reset, _, hbuffer, fun more =>
          step_done hparsed hchunked (hdone more)⟩
    · rw [Bool.not_eq_true] at hchunked
      by_cases hlt : buffer.length < state.bodySize
      · refine .inr (.inl ⟨step_short hparsed hchunked hlt, fun herror => ?_⟩)
        simp [errorAt, hchunked] at herror
      · have hlength : (buffer.take state.bodySize).length = state.bodySize :=
          List.length_take_of_le (Nat.not_lt.mp hlt)
        refine .inl ⟨buffer.take state.bodySize, buffer.drop state.bodySize, .reset,
          [(state.withBody (buffer.take state.bodySize)).completed],
          (List.take_append_drop _ _).symm, fun more => ?_⟩
        have hlong : ¬ (buffer.take state.bodySize ++ more).length < state.bodySize := by
          rw [List.length_append, hlength]
          omega
        rw [step_whole hparsed hchunked hlong, List.take_left' hlength, List.drop_left' hlength]
  · rw [Bool.not_eq_true] at hparsed
    have hnone (buffer : List UInt8) : errorAt (some state) buffer = false := by
      simp [errorAt, hparsed]
    rcases headerTurn_cases state buffer with hwait | ⟨hthrows, hblock⟩ |
      ⟨t, rest, response, hbuffer, hmore⟩ | ⟨t, rest, state', hbuffer, -, hmore⟩
    · refine .inr (.inl ⟨step_wait hparsed hwait, fun herror => ?_⟩)
      rw [hnone] at herror
      cases herror
    · exact .inr (.inr (.inl ⟨step_throws hparsed hthrows, hnone buffer, hparsed, hblock⟩))
    · exact .inl ⟨t, rest, .reset, _, hbuffer, fun more => step_complete hparsed (hmore more)⟩
    · exact .inl ⟨t, rest, state', [], hbuffer, fun more => step_body hparsed (hmore more)⟩

/-- **A turn that goes on looks at what it uses.** -/
theorem responseReader_local : responseReader.Local := by
  intro s buffer s' out rest h
  cases s with
  | none => cases h
  | some state =>
    rcases responseStep_cases state buffer with ⟨t, rest', state', out', hbuffer, hmore⟩ |
      ⟨hwait, -⟩ | ⟨hthrows, -⟩ | ⟨-, -, line, after, -, -, hbad⟩
    · have hturn := hmore rest'
      rw [← hbuffer, h] at hturn
      cases hturn
      exact ⟨t, hbuffer, hmore⟩
    · rw [hwait] at h
      cases h
    · rw [hthrows] at h
      cases h
    · rw [hbad] at h
      cases h

/-- A turn that goes on has not thrown. -/
theorem exists_of_next {state : ParserState} {buffer rest : List UInt8} {s' : Option ParserState}
    {out : List HttpsClientResponse}
    (h : responseReader.step (some state) buffer = .next s' out rest) :
    ∃ state', s' = some state' := by
  rcases responseStep_cases state buffer with ⟨t, rest', state', out', hbuffer, hmore⟩ |
    ⟨hwait, -⟩ | ⟨hthrows, -⟩ | ⟨-, -, line, after, -, -, hlost⟩
  · have hturn := hmore rest'
    rw [← hbuffer, h] at hturn
    cases hturn
    exact ⟨state', rfl⟩
  · rw [hwait] at h
    cases h
  · rw [hthrows] at h
    cases h
  · rw [hlost] at h
    cases h

/-- The reader stops before it has thrown. -/
theorem exists_last (state : ParserState) (buffer : List UInt8) :
    ∃ state' rest, responseReader.last (some state) buffer = (some state', rest) := by
  suffices h : ∀ s buffer, ∀ state, s = some state →
      ∃ state' rest, responseReader.last s buffer = (some state', rest) from h _ _ state rfl
  intro s buffer
  induction s, buffer using responseReader.turns_induction with
  | stop s buffer s' rest hstop =>
    rintro state rfl
    exact ⟨state, buffer, Reader.last_stop hstop⟩
  | next s buffer s' out rest hnext ih =>
    rintro state rfl
    obtain ⟨state', rfl⟩ := exists_of_next hnext
    rw [Reader.last_next hnext]
    exact ih state' rfl

/-! ## The calls are the reader -/

/-- A call ends with an `Error` of `parse_chunked_body`. -/
def errorAfter (s : Option ParserState) (buffer : List UInt8) : Bool :=
  errorAt (responseReader.last s buffer).1 (responseReader.last s buffer).2

theorem errorAfter_next {s s' : Option ParserState} {buffer rest : List UInt8}
    {out : List HttpsClientResponse} (h : responseReader.step s buffer = .next s' out rest) :
    errorAfter s buffer = errorAfter s' rest := by
  rw [errorAfter, Reader.last_next h, errorAfter]

theorem errorAfter_stop {s s' : Option ParserState} {buffer rest : List UInt8}
    (h : responseReader.step s buffer = .stop s' rest) :
    errorAfter s buffer = errorAt s buffer := by
  rw [errorAfter, Reader.last_stop h]

section Loops

variable {state : ParserState} {buffer : List UInt8}

/-- **The chunk loop** finds an error where the reader does. -/
theorem errorAfter_chunked {fuel : ℕ} (hparsed : state.headerParsed = true)
    (hchunked : state.head.isChunked = true) (hfuel : 3 * buffer.length + state.rank < fuel) :
    errorAfter (some state) buffer =
      match chunkTurns fuel state buffer with
      | (.done, _, rest) => errorAfter (some .reset) rest
      | (.needMoreData, _, _) => false
      | (.error, _, _) => true := by
  induction fuel generalizing state buffer with
  | zero => exact absurd hfuel (Nat.not_lt_zero _)
  | succ fuel ih =>
    rw [chunkTurns]
    cases hturn : chunkTurn state buffer with
    | more state' rest =>
      obtain ⟨hparsed', hchunked', hlt⟩ := chunkTurn_more hturn
      have := hlt hparsed
      rw [errorAfter_next (step_more hparsed hchunked hturn)]
      exact ih (hparsed'.trans hparsed) (hchunked'.trans hchunked) (by omega)
    | result result state' rest =>
      cases result with
      | done => rw [errorAfter_next (step_done hparsed hchunked hturn)]
      | needMoreData =>
        rw [errorAfter_stop (step_returned _ (by decide) hparsed hchunked hturn)]
        simp [errorAt, hturn]
      | error =>
        rw [errorAfter_stop (step_returned _ (by decide) hparsed hchunked hturn)]
        simp [errorAt, hparsed, hchunked, hturn]

/-- Two loops see an error, and an exception, where the reader does. -/
def Sees (s : Option ParserState) (buffer : List UInt8) (error : Bool) (result : ParseAllResult) :
    Prop :=
  error = errorAfter s buffer ∧ ((responseReader.drain s buffer).state = none → result.1 = none)

theorem Sees.next {s s' : Option ParserState} {rest : List UInt8} {error : Bool}
    {result : ParseAllResult} {response : HttpsClientResponse} (h : Sees s' rest error result)
    (hnext : responseReader.step s buffer = .next s' [response] rest) :
    Sees s buffer error (result.prepend response) := by
  refine ⟨h.1.trans (errorAfter_next hnext).symm, fun hnone => ?_⟩
  rw [Reader.drain_next hnext] at hnone
  rw [ParseAllResult.prepend, h.2 hnone]
  rfl

theorem sees_body {goOn : List UInt8 → ParseAllResult} {goOnError : List UInt8 → Bool}
    (hparsed : state.headerParsed = true)
    (h : ∀ rest, 3 * rest.length < 3 * buffer.length + state.rank →
      Sees (some .reset) rest (goOnError rest) (goOn rest)) :
    Sees (some state) buffer (bodyError goOnError state buffer) (parseBody goOn state buffer) := by
  rw [bodyError, parseBody]
  by_cases hchunked : state.head.isChunked = true
  · have hrank := state.rank_le
    have hfuel : 3 * buffer.length + state.rank < 3 * buffer.length + 3 := by omega
    rw [if_pos hchunked, if_pos hchunked, Sees, errorAfter_chunked hparsed hchunked hfuel,
      drain_chunked hparsed hchunked hfuel, parseChunkedBody]
    cases hturns : chunkTurns (3 * buffer.length + 3) state buffer with
    | mk result after =>
      obtain ⟨state', rest⟩ := after
      cases result with
      | done =>
        obtain ⟨herror, hnone⟩ := h rest (chunkTurns_length hparsed hturns)
        refine ⟨herror, fun hstate => ?_⟩
        change Option.map _ (goOn rest).1 = none
        rw [hnone hstate]
        rfl
      | needMoreData => exact ⟨rfl, fun hstate => absurd hstate (Option.some_ne_none _)⟩
      | error => exact ⟨rfl, fun hstate => absurd hstate (Option.some_ne_none _)⟩
  · rw [if_neg hchunked, if_neg hchunked]
    rw [Bool.not_eq_true] at hchunked
    split_ifs with hlt
    · have hstop := step_short hparsed hchunked hlt
      refine ⟨?_, fun hnone => ?_⟩
      · rw [errorAfter_stop hstop]
        simp [errorAt, hchunked]
      · rw [Reader.drain_stop hstop] at hnone
        cases hnone
    · have hrank := ParserState.rank_pos hparsed
      exact (h _ (by rw [List.length_drop]; omega)).next (step_whole hparsed hchunked hlt)

/-- **The loop of `parse_all`** sees an error, and an exception, where the reader does. -/
theorem sees_loop {fuel : ℕ} (hfuel : responseSize (some state) buffer < fuel) :
    Sees (some state) buffer (errorLoop fuel state buffer) (parseAllLoop fuel state buffer) := by
  induction fuel generalizing state buffer with
  | zero => exact absurd hfuel (Nat.not_lt_zero _)
  | succ fuel ih =>
    rw [responseSize, Option.map_some, Option.getD_some] at hfuel
    rw [errorLoop, parseAllLoop]
    by_cases hparsed : state.headerParsed = true
    · rw [if_pos hparsed, if_pos hparsed]
      refine sees_body hparsed fun rest hlt => ih ?_
      change 3 * rest.length + 0 < fuel
      omega
    · have hmark : headEnd.length = 4 := rfl
      rw [if_neg hparsed, if_neg hparsed]
      rw [Bool.not_eq_true] at hparsed
      have hnone : errorAt (some state) buffer = false := by simp [errorAt, hparsed]
      cases hturn : headerTurn state buffer with
      | wait =>
        have hstop := step_wait hparsed hturn
        refine ⟨(hnone.symm.trans (errorAfter_stop hstop).symm), fun hstate => ?_⟩
        rw [Reader.drain_stop hstop] at hstate
        cases hstate
      | throws =>
        have hstop := step_throws hparsed hturn
        exact ⟨hnone.symm.trans (errorAfter_stop hstop).symm, fun _ => rfl⟩
      | complete response rest =>
        obtain ⟨block, hcut⟩ := headerTurn_complete hturn
        have hlength := length_of_cut hcut
        refine (ih ?_).next (step_complete hparsed hturn)
        change 3 * rest.length + 0 < fuel
        omega
      | body state' rest =>
        obtain ⟨⟨block, hcut⟩, hparsed'⟩ := headerTurn_body hturn
        have hlength := length_of_cut hcut
        have hrank := state'.rank_le
        have hnext := step_body hparsed hturn
        have hsees : Sees (some state') rest (bodyError (errorLoop fuel .reset) state' rest)
            (parseBody (parseAllLoop fuel .reset) state' rest) := by
          refine sees_body hparsed' fun rest' hlt => ih ?_
          change 3 * rest'.length + 0 < fuel
          omega
        refine ⟨hsees.1.trans (errorAfter_next hnext).symm, fun hstate => hsees.2 ?_⟩
        rwa [Reader.drain_next hnext] at hstate

end Loops

namespace HttpsClientResponseParser

variable {parser : HttpsClientResponseParser}

theorem sees_parseAll (parser : HttpsClientResponseParser) :
    parser.parseError = errorAfter (some parser.state) parser.buffer ∧
      ((responseReader.drain (some parser.state) parser.buffer).state = none →
        parser.parseAll.1 = none) := by
  have hrank := parser.state.rank_le
  have hfuel : responseSize (some parser.state) parser.buffer < 3 * parser.buffer.length + 3 := by
    rw [responseSize, Option.map_some, Option.getD_some]
    omega
  exact sees_loop hfuel

/-- **A call that ends with a wait.** -/
theorem parseAll_of_wait {state' : ParserState} {rest : List UInt8}
    (hlast : responseReader.last (some parser.state) parser.buffer = (some state', rest))
    {rest' : List UInt8}
    (hstop : responseReader.step (some state') rest = .stop (some state') rest') :
    parser.parseAll = (some (responseReader.drain (some parser.state) parser.buffer).out,
      ⟨rest', state'⟩) := by
  obtain ⟨hstate, hrest⟩ := Reader.drain_of_last (by rw [hlast]; exact hstop)
  rw [parseAll_eq hstate, hrest]

/-- **A call that throws.** -/
theorem parseAll_of_throws {state' : ParserState} {rest : List UInt8}
    (hlast : responseReader.last (some parser.state) parser.buffer = (some state', rest))
    (hstop : responseReader.step (some state') rest = .stop none rest) :
    parser.parseAll.1 = none := by
  obtain ⟨hstate, -⟩ := Reader.drain_of_last (by rw [hlast]; exact hstop)
  exact parser.sees_parseAll.2 hstate

end HttpsClientResponseParser

/-! ## A run without a lost size line -/

/-- The parser, after the bytes in front, waits. -/
structure WaitsBehind (front : List UInt8) (parser : HttpsClientResponseParser) : Prop where
  last_eq : responseReader.last (some .reset) front = (some parser.state, parser.buffer)
  stops : responseReader.step (some parser.state) parser.buffer =
    .stop (some parser.state) parser.buffer

/-- The responses behind the bytes in front. -/
def responsesOf (front : List UInt8) : List HttpsClientResponse :=
  (responseReader.drain (some .reset) front).out

/-- The bytes in front end in a head for which `std::stoi` throws. -/
def ThrowsAt (front : List UInt8) : Prop :=
  ∃ state buffer block rest, responseReader.last (some .reset) front = (some state, buffer) ∧
    state.headerParsed = false ∧ cut headEnd buffer = some (block, rest) ∧
    parseHeader block state.head = .throws

/-- The bytes in front end in a size line without a size, and what is behind it. -/
def LosesAt (front : List UInt8) : Prop :=
  ∃ state buffer line rest, responseReader.last (some .reset) front = (some state, buffer) ∧
    state.AwaitsSize ∧ cut crlf buffer = some (line, rest) ∧ sizeOfLine line = none

variable {front more stream : List UInt8} {parser : HttpsClientResponseParser}

theorem waitsBehind_fresh : WaitsBehind [] fresh :=
  ⟨Reader.last_stop (step_wait rfl rfl), step_wait rfl rfl⟩

theorem responsesOf_nil : responsesOf [] = [] := by
  have hstop : responseReader.step (some .reset) [] = .stop (some .reset) [] :=
    waitsBehind_fresh.stops
  rw [responsesOf, Reader.drain_stop hstop]

/-- **The error of a line end** comes again. -/
theorem error_persists {state : ParserState} {buffer : List UInt8}
    (hstop : responseReader.step (some state) buffer = .stop (some state) buffer)
    (herror : errorAt (some state) buffer = true) (more : List UInt8) :
    responseReader.step (some state) (buffer ++ more) = .stop (some state) (buffer ++ more) ∧
      errorAt (some state) (buffer ++ more) = true := by
  rcases responseStep_cases state buffer with ⟨t, rest, state', out, hbuffer, hmore⟩ |
    ⟨-, hagain⟩ | ⟨-, hnone, -⟩ | ⟨-, -, line, rest, hcut, -, hlost⟩
  · rw [hbuffer, hmore] at hstop
    cases hstop
  · exact hagain herror more
  · rw [hnone] at herror
    cases herror
  · rw [hlost] at hstop
    cases hstop
    have hlength := length_of_cut hcut
    have hmark : crlf.length = 2 := rfl
    omega

theorem WaitsBehind.last_append (h : WaitsBehind front parser) (more : List UInt8) :
    responseReader.last (some .reset) (front ++ more) =
      responseReader.last (some parser.state) (parser.buffer ++ more) := by
  rw [(responseReader_local.append _ front more).1, h.last_eq]

theorem WaitsBehind.errorAfter_append (h : WaitsBehind front parser) (more : List UInt8) :
    (errorAfter (some .reset) front || errorAfter (some .reset) (front ++ more)) =
      errorAfter (some .reset) (front ++ more) := by
  cases herror : errorAfter (some .reset) front with
  | false => rfl
  | true =>
    rw [errorAfter, h.last_eq] at herror
    obtain ⟨hstop, hagain⟩ := error_persists h.stops herror more
    rw [errorAfter, h.last_append, Reader.last_stop hstop, hagain]
    rfl

/-- **What a call behind a wait can do**: wait again, throw, or lose a size line. -/
theorem WaitsBehind.call (h : WaitsBehind front parser) (piece : List UInt8) :
    (parser.appendData piece).parseError = errorAfter (some .reset) (front ++ piece) ∧
    ((∃ responses parser', (parser.appendData piece).parseAll = (some responses, parser') ∧
        WaitsBehind (front ++ piece) parser' ∧
        responsesOf (front ++ piece) = responsesOf front ++ responses) ∨
      ((parser.appendData piece).parseAll.1 = none ∧ ThrowsAt (front ++ piece) ∧
        responsesOf front <+: responsesOf (front ++ piece)) ∨
      LosesAt (front ++ piece)) := by
  have hlast := h.last_append piece
  have hout : responsesOf (front ++ piece) = responsesOf front ++
      (responseReader.drain (some parser.state) (parser.buffer ++ piece)).out := by
    rw [responsesOf, (responseReader_local.append _ front piece).2, h.last_eq]
    rfl
  refine ⟨?_, ?_⟩
  · rw [(sees_parseAll _).1, errorAfter, errorAfter, hlast]
    rfl
  obtain ⟨state', rest, hcall⟩ := exists_last parser.state (parser.buffer ++ piece)
  rw [hcall] at hlast
  rcases responseStep_cases state' rest with ⟨t, rest', state'', out, hbuffer, hmore⟩ |
    ⟨hstop, -⟩ | ⟨hstop, -, hparsed, block, after, hcut, hparse⟩ |
    ⟨hawaits, -, line, after, hcut, hsize, -⟩
  · obtain ⟨s', r', hends⟩ :=
      responseReader.exists_stop_last (some parser.state) (parser.buffer ++ piece)
    rw [hcall, hbuffer, hmore] at hends
    cases hends
  · exact .inl ⟨_, ⟨rest, state'⟩, parseAll_of_wait hcall hstop, ⟨hlast, hstop⟩, hout⟩
  · refine .inr (.inl ⟨parseAll_of_throws hcall hstop,
      ⟨state', rest, block, after, hlast, hparsed, hcut, hparse⟩, ?_⟩)
    rw [hout]
    exact List.prefix_append _ _
  · exact .inr (.inr ⟨state', rest, line, after, hlast, hawaits, hcut, hsize⟩)

/-- **The bytes in front of the place where a call stops**, read in one call. -/
theorem exists_front {state : ParserState} {buffer : List UInt8}
    (hlast : responseReader.last (some .reset) front = (some state, buffer))
    (hwait : responseReader.step (some state) [] = .stop (some state) []) :
    ∃ before responses, front = before ++ buffer ∧
      (fresh.appendData before).parseAll = (some responses, ⟨[], state⟩) ∧
      (before = [] → state = .reset) := by
  obtain ⟨before, hfront, hread⟩ := responseReader_local.exists_consumed (some .reset) front
  rw [hlast] at hfront hread
  have hbefore : responseReader.last (some .reset) before = (some state, []) := by
    rw [← List.append_nil before, (hread []).1, Reader.last_stop hwait]
  refine ⟨before, _, hfront, parseAll_of_wait hbefore hwait, ?_⟩
  rintro rfl
  rw [waitsBehind_fresh.last_eq] at hbefore
  cases hbefore
  rfl

theorem ParserState.AwaitsSize.waits {state : ParserState} (h : state.AwaitsSize) :
    responseReader.step (some state) [] = .stop (some state) [] := by
  obtain ⟨hparsed, hchunked, hchunk⟩ := h
  refine step_returned .needMoreData (by decide) hparsed hchunked ?_
  simp only [chunkTurn, hchunk]
  rfl

theorem LosesAt.meetsBadSizeLine (h : LosesAt front) (hpre : front <+: stream) :
    MeetsBadSizeLine stream := by
  obtain ⟨state, buffer, line, rest, hlast, hawaits, hcut, hsize⟩ := h
  obtain ⟨before, responses, hfront, hcall, -⟩ := exists_front hlast hawaits.waits
  obtain ⟨behind, rfl⟩ := hpre
  exact ⟨before, buffer ++ behind, line, rest ++ behind, state, responses,
    by rw [hfront, List.append_assoc], hcall, hawaits, cut_append hcut behind, hsize⟩

/-- **A head that throws** stands behind a response, or at the start of the stream. -/
theorem ThrowsAt.cases (h : ThrowsAt front) (hpre : front <+: stream) :
    ThrowsBehindResponse stream ∨ headerTurn .reset stream = .throws ∧ responsesOf front = [] := by
  obtain ⟨state, buffer, block, rest, hlast, hparsed, hcut, hparse⟩ := h
  have hwait : responseReader.step (some state) [] = .stop (some state) [] := step_wait hparsed rfl
  obtain ⟨before, responses, hfront, hcall, hreset⟩ := exists_front hlast hwait
  obtain ⟨behind, rfl⟩ := hpre
  by_cases hbefore : before = []
  · obtain rfl := hreset hbefore
    rw [hbefore, List.nil_append] at hfront
    subst hfront
    have hthrows : ∀ more, headerTurn .reset (front ++ more) = .throws := fun more => by
      rw [headerTurn, cut_append hcut more]
      simp only [hparse]
    refine .inr ⟨hthrows behind, ?_⟩
    have hstop := step_throws rfl (hthrows [])
    rw [List.append_nil] at hstop
    rw [responsesOf, Reader.drain_stop hstop]
  · exact .inl ⟨before, buffer ++ behind, block, rest ++ behind, state, responses, hbefore,
      by rw [hfront, List.append_assoc], hcall, hparsed, cut_append hcut behind, hparse⟩

theorem ThrowsAt.errorAfter (h : ThrowsAt front) : errorAfter (some .reset) front = false := by
  obtain ⟨state, buffer, block, rest, hlast, hparsed, -⟩ := h
  rw [TradingEngine.errorAfter, hlast]
  simp [errorAt, hparsed]

/-- **A run over a stream without a lost size line** reads it like one call, or throws. -/
theorem WaitsBehind.readPieces (hlost : ¬ MeetsBadSizeLine stream) (h : WaitsBehind front parser)
    {pieces : List (List UInt8)} (hpre : front ++ pieces.flatten <+: stream) :
    (∃ parser', (parser.readPieces pieces).parser = some parser' ∧
      WaitsBehind (front ++ pieces.flatten) parser' ∧
      responsesOf front ++ (parser.readPieces pieces).returned =
        responsesOf (front ++ pieces.flatten) ∧
      (errorAfter (some .reset) front || (parser.readPieces pieces).error) =
        errorAfter (some .reset) (front ++ pieces.flatten)) ∨
    ∃ middle, middle <+: stream ∧ ThrowsAt middle ∧ (parser.readPieces pieces).parser = none ∧
      responsesOf front ++ (parser.readPieces pieces).returned <+: responsesOf middle ∧
      (errorAfter (some .reset) front || (parser.readPieces pieces).error) = false := by
  induction pieces generalizing front parser with
  | nil =>
    rw [List.flatten_nil, List.append_nil]
    exact .inl ⟨parser, rfl, h, List.append_nil _, Bool.or_false _⟩
  | cons piece pieces ih =>
    rw [List.flatten_cons, ← List.append_assoc] at hpre ⊢
    have hnow := (List.prefix_append _ _).trans hpre
    have herror' := h.errorAfter_append piece
    obtain ⟨herror, ⟨responses, parser', hcall, hwaits, hout⟩ | ⟨hcall, hthrows, hout⟩ | hloses⟩ :=
      h.call piece
    · simp only [HttpsClientResponseParser.readPieces, hcall, herror]
      refine (ih hwaits hpre).imp ?_ ?_
      · rintro ⟨last, hlast, hbehind, hreturned, herrors⟩
        refine ⟨last, hlast, hbehind, ?_, ?_⟩
        · rw [← List.append_assoc, ← hout, hreturned]
        · rw [← Bool.or_assoc, herror', herrors]
      · rintro ⟨middle, hmiddle, hthrows, hlast, hreturned, hnone⟩
        refine ⟨middle, hmiddle, hthrows, hlast, ?_, ?_⟩
        · rwa [← List.append_assoc, ← hout]
        · rw [← Bool.or_assoc, herror', hnone]
    · refine .inr ⟨front ++ piece, hnow, hthrows, ?_⟩
      rw [hthrows.errorAfter, Bool.or_false] at herror'
      simp only [HttpsClientResponseParser.readPieces, hcall, herror, List.append_nil, herror',
        hthrows.errorAfter]
      exact ⟨trivial, hout, rfl⟩
    · exact absurd (hloses.meetsBadSizeLine hnow) hlost

/-- **Behind the error of a line end** nothing is returned. -/
theorem WaitsBehind.returned_of_error (h : WaitsBehind front parser)
    (herror : errorAfter (some .reset) front = true) (further : List (List UInt8)) :
    (parser.readPieces further).returned = [] := by
  induction further generalizing front parser with
  | nil => rfl
  | cons piece further ih =>
    have hat := herror
    rw [errorAfter, h.last_eq] at hat
    obtain ⟨hstop, -⟩ := error_persists h.stops hat piece
    have hlast := Reader.last_stop hstop
    have hcall : (parser.appendData piece).parseAll = (some [], parser.appendData piece) := by
      refine (parseAll_of_wait hlast hstop).trans ?_
      rw [Reader.drain_stop (show responseReader.step (some (parser.appendData piece).state)
        (parser.appendData piece).buffer = _ from hstop)]
      rfl
    have hwaits : WaitsBehind (front ++ piece) (parser.appendData piece) :=
      ⟨(h.last_append piece).trans hlast, hstop⟩
    have hagain : errorAfter (some .reset) (front ++ piece) = true := by
      rw [← h.errorAfter_append piece, herror, Bool.true_or]
    simp only [HttpsClientResponseParser.readPieces, hcall, List.nil_append]
    exact ih hwaits hagain

/-- **Errors are final** without a lost size line. -/
theorem errorsFinal_of_not_meets (h : ¬ MeetsBadSizeLine stream) : ErrorsFinal stream := by
  intro pieces piece parser hpre hparser herror further
  rw [List.flatten_append, List.flatten_singleton] at hpre
  have hbefore := (List.prefix_append _ _).trans hpre
  rcases waitsBehind_fresh.readPieces h hbefore with ⟨parser', hlast, hwaits, -⟩ |
    ⟨middle, -, -, hnone, -⟩
  · rw [hlast] at hparser
    cases hparser
    rw [List.nil_append] at hwaits
    obtain ⟨hsees, ⟨responses, parser'', hcall, hbehind, -⟩ | ⟨-, hthrows, -⟩ | hloses⟩ :=
      hwaits.call piece
    · rw [hsees] at herror
      rw [hcall]
      have hagain := hbehind.returned_of_error herror further
      rw [hagain]
      exact fun response hresponse => absurd hresponse List.not_mem_nil
    · rw [hsees, hthrows.errorAfter] at herror
      cases herror
    · exact absurd (hloses.meetsBadSizeLine hpre) h
  · rw [hnone] at hparser
    cases hparser

/-- **The cut does not matter** either, if no head throws behind a response. -/
theorem cutIndependent_of_not_meets (h : ¬ MeetsBadSizeLine stream)
    (hthrows : ¬ ThrowsBehindResponse stream) : CutIndependent stream := by
  have hnone : errorAfter (some .reset) [] = false := errorAfter_stop waitsBehind_fresh.stops
  obtain ⟨responses, error, hone⟩ : ∃ responses error, ∀ pieces : List (List UInt8),
      pieces.flatten = stream → (fresh.readPieces pieces).returned = responses ∧
        (fresh.readPieces pieces).error = error := by
    by_cases hfirst : headerTurn .reset stream = .throws
    · refine ⟨[], false, ?_⟩
      rintro pieces rfl
      rcases waitsBehind_fresh.readPieces h (List.prefix_rfl (l := pieces.flatten)) with
        ⟨parser', -, hwaits, -⟩ | ⟨middle, hmiddle, hat, -, hreturned, herror⟩
      · have hstop := step_throws rfl hfirst
        have hlast := hwaits.last_eq
        have hstops := hwaits.stops
        rw [List.nil_append, Reader.last_stop hstop, Prod.mk.injEq] at hlast
        rw [← hlast.1, ← hlast.2, hstop] at hstops
        cases hstops
      · obtain ⟨-, hnothing⟩ := (hat.cases hmiddle).resolve_left hthrows
        rw [responsesOf_nil, List.nil_append, hnothing, List.prefix_nil] at hreturned
        rw [hnone, Bool.false_or] at herror
        exact ⟨hreturned, herror⟩
    · refine ⟨responsesOf stream, errorAfter (some .reset) stream, ?_⟩
      rintro pieces rfl
      rcases waitsBehind_fresh.readPieces h (List.prefix_rfl (l := pieces.flatten)) with
        ⟨parser', -, -, hreturned, herror⟩ | ⟨middle, hmiddle, hat, -⟩
      · rw [responsesOf_nil, List.nil_append, List.nil_append] at hreturned
        rw [hnone, Bool.false_or, List.nil_append] at herror
        exact ⟨hreturned, herror⟩
      · exact absurd ((hat.cases hmiddle).resolve_left hthrows).1 hfirst
  intro pieces pieces' hpieces hpieces'
  obtain ⟨hleft, hleftError⟩ := hone pieces hpieces
  obtain ⟨hright, hrightError⟩ := hone pieces' hpieces'
  exact ⟨hleft.trans hright.symm, hleftError.trans hrightError.symm⟩

/-! ## Behind a lost size line -/

/-- One more chunk, and the last. -/
def lastChunks : List UInt8 := text "1" ++ crlf ++ (text "x" ++ (crlf ++ (text "0" ++ headEnd)))

/-- **A parser that awaits a size line** returns a response with a body behind it. -/
theorem ParserState.AwaitsSize.returned {state : ParserState} (h : state.AwaitsSize) :
    ∃ response ∈ ((⟨[], state⟩ : HttpsClientResponseParser).readPieces [lastChunks]).returned,
      response.body ≠ [] := by
  obtain ⟨head, headerParsed, chunkState, remaining⟩ := state
  obtain ⟨rfl, hchunked, rfl⟩ := h
  let filled : Head := { head with response.body := head.response.body ++ text "x" }
  have hsize : chunkTurn ⟨head, true, .readSizeLine, remaining⟩ lastChunks =
      .more ⟨head, true, .readData, 1⟩ (text "x" ++ (crlf ++ (text "0" ++ headEnd))) := rfl
  have hdata : chunkTurn ⟨head, true, .readData, 1⟩ (text "x" ++ (crlf ++ (text "0" ++ headEnd))) =
      .more ⟨filled, true, .readDataCRLF, 1⟩ (crlf ++ (text "0" ++ headEnd)) := rfl
  have hend : chunkTurn ⟨filled, true, .readDataCRLF, 1⟩ (crlf ++ (text "0" ++ headEnd)) =
      .more ⟨filled, true, .readSizeLine, 0⟩ (text "0" ++ headEnd) := rfl
  have hlast : chunkTurn ⟨filled, true, .readSizeLine, 0⟩ (text "0" ++ headEnd) =
      .more ⟨filled, true, .readTrailers, 0⟩ crlf := rfl
  have hdone : chunkTurn ⟨filled, true, .readTrailers, 0⟩ crlf =
      .result .done ⟨filled, true, .done, 0⟩ [] := rfl
  have hdrain : responseReader.drain (some ⟨head, true, .readSizeLine, remaining⟩) lastChunks =
      ⟨some .reset, [{ filled.response with isComplete := true }], []⟩ := by
    rw [Reader.drain_next (step_more (by rfl) (by exact hchunked) hsize),
      Reader.drain_next (step_more (by rfl) (by exact hchunked) hdata),
      Reader.drain_next (step_more (by rfl) (by exact hchunked) hend),
      Reader.drain_next (step_more (by rfl) (by exact hchunked) hlast),
      Reader.drain_next (step_done (by rfl) (by exact hchunked) hdone),
      Reader.drain_stop (step_wait rfl rfl)]
    rfl
  have hcall : ((⟨[], ⟨head, true, .readSizeLine, remaining⟩⟩ :
      HttpsClientResponseParser).appendData lastChunks).parseAll =
        (some [{ filled.response with isComplete := true }], ⟨[], .reset⟩) := by
    have hparse : (⟨lastChunks, ⟨head, true, .readSizeLine, remaining⟩⟩ :
        HttpsClientResponseParser).parseAll = _ := parseAll_eq (congrArg After.state hdrain)
    rw [hdrain] at hparse
    exact hparse
  refine ⟨{ filled.response with isComplete := true }, ?_,
    List.append_ne_nil_of_right_ne_nil _ (by decide)⟩
  simp only [HttpsClientResponseParser.readPieces, hcall]
  exact List.mem_singleton_self _

/-- **A lost size line is not final.** -/
theorem not_errorsFinal_of_meets (h : MeetsBadSizeLine stream) : ¬ ErrorsFinal stream := by
  obtain ⟨front, behind, line, rest, state, responses, rfl, hcall, hawaits, hcut, hsize⟩ := h
  intro hfinal
  have hline : cut crlf (line ++ crlf) = some (line, []) := by
    rw [← List.append_nil (line ++ crlf)]
    exact cut_front hcut []
  have hturn : chunkTurn state (line ++ crlf) = .result .error state [] := by
    simp only [chunkTurn, hawaits.2.2, hline, hsize]
  have hstop := step_returned _ (by decide) hawaits.1 hawaits.2.1 hturn
  have hparser : (fresh.readPieces [front]).parser = some ⟨[], state⟩ := by
    simp only [HttpsClientResponseParser.readPieces, hcall]
  have herror : ((⟨[], state⟩ : HttpsClientResponseParser).appendData (line ++ crlf)).parseError =
      true := by
    refine (sees_parseAll _).1.trans ((errorAfter_stop hstop).trans ?_)
    simp [errorAt, hawaits.1, hawaits.2.1, hturn]
  have hafter : ((⟨[], state⟩ : HttpsClientResponseParser).appendData (line ++ crlf)).parseAll.2 =
      ⟨[], state⟩ := by
    have hlast := Reader.last_stop hstop
    rw [parseAll_of_wait hlast hstop]
  have hpre : ([front] ++ [line ++ crlf]).flatten <+: front ++ behind := by
    rw [eq_of_cut hcut]
    exact ⟨rest, by simp⟩
  obtain ⟨response, hresponse, hbody⟩ := hawaits.returned
  refine hbody (hfinal [front] (line ++ crlf) _ hpre hparser herror [lastChunks] response ?_)
  rwa [hafter]

/-- A turn that gives nothing out is inside a response. -/
theorem headerParsed_of_silent {state state' : ParserState} {buffer rest : List UInt8}
    (h : responseReader.step (some state) buffer = .next (some state') [] rest) :
    state'.headerParsed = true := by
  rw [responseReader_step, responseStep] at h
  split_ifs at h with hparsed hchunked hlt
  · cases hturn : chunkTurn state buffer with
    | more state'' after =>
      rw [hturn] at h
      cases h
      exact (chunkTurn_more hturn).1.trans hparsed
    | result result state'' after =>
      rw [hturn] at h
      cases result <;> cases h
  · cases h
  · cases hturn : headerTurn state buffer with
    | wait =>
      rw [hturn] at h
      cases h
    | throws =>
      rw [hturn] at h
      cases h
    | complete response after =>
      rw [hturn] at h
      cases h
    | body state'' after =>
      rw [hturn] at h
      cases h
      exact (headerTurn_body hturn).2

/-- **Between two responses**, with none in front, nothing was used. -/
theorem last_of_silent {state state' : ParserState} {buffer rest : List UInt8}
    (hlast : responseReader.last (some state) buffer = (some state', rest))
    (hparsed : state'.headerParsed = false)
    (hout : (responseReader.drain (some state) buffer).out = []) :
    state.headerParsed = false ∧ rest = buffer := by
  suffices h : ∀ s buffer, ∀ state : ParserState, s = some state →
      responseReader.last s buffer = (some state', rest) →
      (responseReader.drain s buffer).out = [] → state.headerParsed = false ∧ rest = buffer from h _ _ state rfl hlast hout
  intro s buffer
  induction s, buffer using responseReader.turns_induction with
  | stop s buffer s' rest' hstop =>
    rintro state rfl hlast -
    rw [Reader.last_stop hstop] at hlast
    cases hlast
    exact ⟨hparsed, rfl⟩
  | next s buffer s' out rest' hnext ih =>
    rintro state rfl hlast hout
    rw [Reader.last_next hnext] at hlast
    rw [Reader.drain_next hnext, After.out_prepend, List.append_eq_nil_iff] at hout
    obtain ⟨rfl, hout⟩ := hout
    obtain ⟨state'', rfl⟩ := exists_of_next hnext
    have hinside := headerParsed_of_silent hnext
    rw [(ih state'' rfl hlast hout).1] at hinside
    cases hinside

/-- **A head that throws behind a response**: the responses of the same call are lost. -/
theorem not_throwsBehind_of_cutIndependent (h : ¬ MeetsBadSizeLine stream)
    (hcut : CutIndependent stream) : ¬ ThrowsBehindResponse stream := by
  rintro ⟨front, behind, block, rest, state, responses, hfront, rfl, hcall, hparsed, hblock, hparse⟩
  have hpre : front <+: front ++ behind := List.prefix_append front behind
  -- in one call nothing is returned
  have hstop : responseReader.step (some state) behind = .stop none behind := by
    refine step_throws hparsed ?_
    rw [headerTurn, hblock]
    simp only [hparse]
  obtain ⟨-, ⟨responses', parser', hcall', hwaits, hout⟩ | ⟨hnone, -⟩ | hloses⟩ :=
    waitsBehind_fresh.call front
  · rw [hcall] at hcall'
    cases hcall'
    have hlast : responseReader.last (some .reset) (front ++ behind) = (some state, behind) :=
      (hwaits.last_append behind).trans (Reader.last_stop hstop)
    have hwhole : (fresh.appendData (front ++ behind)).parseAll.1 = none :=
      parseAll_of_throws hlast hstop
    -- in two calls the responses in front are
    have hreturned := (hcut [front, behind] [front ++ behind] (by simp) (by simp)).1
    simp only [HttpsClientResponseParser.readPieces, hcall, hwhole,
      List.append_eq_nil_iff] at hreturned
    have hsilent : responsesOf ([] ++ front) = [] := by
      rw [hout, hreturned.1]
      exact congrArg (· ++ []) responsesOf_nil
    have hback := last_of_silent hwaits.last_eq hparsed hsilent
    exact hfront hback.2.symm
  · rw [hcall] at hnone
    cases hnone
  · exact h (hloses.meetsBadSizeLine hpre)

/-- **The errors of a stream are final and its cut does not matter** exactly if no size line without
a size comes in it, and no head behind a response makes `std::stoi` throw. -/
theorem chunkErrors_iff (stream : List UInt8) :
    ErrorsFinal stream ∧ CutIndependent stream ↔
      ¬ MeetsBadSizeLine stream ∧ ¬ ThrowsBehindResponse stream := by
  constructor
  · rintro ⟨hfinal, hcut⟩
    have hmeets : ¬ MeetsBadSizeLine stream := fun h => not_errorsFinal_of_meets h hfinal
    exact ⟨hmeets, not_throwsBehind_of_cutIndependent hmeets hcut⟩
  · rintro ⟨hmeets, hthrows⟩
    exact ⟨errorsFinal_of_not_meets hmeets, cutIndependent_of_not_meets hmeets hthrows⟩

/-- A head, a chunk and a size line that is none. -/
def damagedBody : List UInt8 :=
  text "HTTP/1.1 200 OK\r\nTransfer-Encoding: chunked\r\n\r\n2\r\nhi\r\nzz\r\n"

/-- **The body goes on behind the error**: the second call returns one that is made of bytes in
front of the bad size line and behind it.  In one call nothing is returned. -/
theorem damagedBody_not_final :
    (fresh.appendData damagedBody).parseError = true ∧
      (((fresh.appendData damagedBody).parseAll.2.appendData lastChunks).parseAll.1.map
        fun responses => responses.map (·.body)) = some [text "hix"] ∧
      ((fresh.appendData (damagedBody ++ lastChunks)).parseAll.1.map
        fun responses => responses.map (·.body)) = some [] ∧
      ¬ ErrorsFinal damagedBody ∧ ¬ CutIndependent (damagedBody ++ lastChunks) := by
  have herror : (fresh.appendData damagedBody).parseError = true := by
    rw [damagedBody, text_ofList]
    decide +kernel
  have hbodies : ((fresh.readPieces [damagedBody, lastChunks]).returned.map (·.body)) ≠
      ((fresh.readPieces [damagedBody ++ lastChunks]).returned.map (·.body)) := by
    rw [damagedBody, text_ofList]
    decide +kernel
  have hbody : ¬ ∀ response ∈ ((fresh.appendData damagedBody).parseAll.2.readPieces
      [lastChunks]).returned, response.body = [] := by
    rw [damagedBody, text_ofList]
    decide +kernel
  refine ⟨herror, ?_, ?_, fun h => ?_, fun h => ?_⟩
  · rw [damagedBody, text_ofList]
    decide +kernel
  · rw [damagedBody, text_ofList]
    decide +kernel
  · exact hbody (h [] damagedBody fresh (by simp) rfl herror [lastChunks])
  · exact hbodies (congrArg (List.map (·.body)) (h _ _ (by simp) (by simp)).1)

end TradingEngine
