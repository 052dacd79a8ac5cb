import TradingEngine.Http.ResponseParser
import TradingEngine.Machinery.Incremental

/-!
# Http/ResponseReader — the nested loops are one reader

A turn of the reader is a turn of `parse_all`, or a turn of the loop of `parse_chunked_body` inside
it.  The state is `none` once `std::stoi` has thrown.
-/

namespace TradingEngine

open Ascii Incremental

variable {state state' : ParserState} {buffer rest : List UInt8} {response : HttpsClientResponse}

/-- One turn of either loop. -/
def responseStep (state : Option ParserState) (buffer : List UInt8) :
    Turn (Option ParserState) UInt8 HttpsClientResponse :=
  match state with
  | none => .stop none buffer
  | some state =>
    if state.headerParsed then
      if state.head.isChunked then
        match chunkTurn state buffer with
        | .more state' rest => .next (some state') [] rest
        | .result .done state' rest => .next (some .reset) [state'.completed] rest
        | .result _ state' rest => .stop (some state') rest
      else if buffer.length < state.bodySize then .stop (some state) buffer
      else
        .next (some .reset) [(state.withBody (buffer.take state.bodySize)).completed]
          (buffer.drop state.bodySize)
    else
      match headerTurn state buffer with
      | .wait => .stop (some state) buffer
      | .throws => .stop none buffer
      | .complete response rest => .next (some .reset) [response] rest
      | .body state' rest => .next (some state') [] rest

/-! ## Every turn makes something smaller -/

/-- What is left to do at a place in the buffer. -/
def ParserState.rank (state : ParserState) : ℕ :=
  if state.headerParsed then if state.chunkState = .readData then 2 else 1 else 0

theorem ParserState.rank_le (state : ParserState) : state.rank ≤ 2 := by
  rw [rank]
  split_ifs <;> decide

theorem ParserState.rank_pos {state : ParserState} (hparsed : state.headerParsed = true) :
    0 < state.rank := by
  rw [ParserState.rank, if_pos hparsed]
  split_ifs <;> decide

/-- The measure of the reader. -/
def responseSize (state : Option ParserState) (buffer : List UInt8) : ℕ :=
  3 * buffer.length + (state.map ParserState.rank).getD 0

theorem length_of_cut {mark a b : List UInt8} (h : cut mark buffer = some (a, b)) :
    buffer.length = a.length + mark.length + b.length := by
  rw [eq_of_cut h, List.length_append, List.length_append]

/-- A turn of the chunk loop keeps the head. -/
theorem chunkTurn_more (h : chunkTurn state buffer = .more state' rest) :
    state'.headerParsed = state.headerParsed ∧ state'.head.isChunked = state.head.isChunked ∧
      (state.headerParsed = true →
        3 * rest.length + state'.rank < 3 * buffer.length + state.rank) := by
  rw [chunkTurn] at h
  cases hchunk : state.chunkState with
  | readSizeLine =>
    rw [hchunk] at h
    dsimp only at h
    cases hcut : cut crlf buffer with
    | none =>
      rw [hcut] at h
      cases h
    | some parts =>
      obtain ⟨sizeLine, after⟩ := parts
      rw [hcut] at h
      dsimp only at h
      cases hsize : sizeOfLine sizeLine with
      | none =>
        rw [hsize] at h
        cases h
      | some chunkSize =>
        rw [hsize] at h
        cases h
        have hlength := length_of_cut hcut
        have hrank := ParserState.rank_le { state with
          chunkBytesRemaining := chunkSize
          chunkState := if chunkSize = 0 then .readTrailers else .readData }
        refine ⟨rfl, rfl, fun _ => ?_⟩
        have hmark : crlf.length = 2 := rfl
        omega
  | readData =>
    rw [hchunk] at h
    dsimp only at h
    split_ifs at h with hlt
    cases h
    refine ⟨rfl, rfl, fun hparsed => ?_⟩
    simp only [ParserState.rank, ParserState.withBody, hparsed, hchunk, if_true, List.length_drop,
      reduceCtorEq, if_false]
    omega
  | readDataCRLF =>
    rw [hchunk] at h
    dsimp only at h
    split_ifs at h with hlt hne
    cases h
    refine ⟨rfl, rfl, fun hparsed => ?_⟩
    simp only [ParserState.rank, hparsed, hchunk, if_true, List.length_drop, reduceCtorEq, if_false]
    omega
  | readTrailers =>
    rw [hchunk] at h
    dsimp only at h
    split_ifs at h with hlt hempty
    cases hcut : cut headEnd buffer with
    | none =>
      rw [hcut] at h
      cases h
    | some parts =>
      rw [hcut] at h
      cases h
  | done =>
    rw [hchunk] at h
    cases h

/-- A chunked body that is done leaves no more than there was. -/
theorem chunkTurn_length {result : ChunkParseResult}
    (h : chunkTurn state buffer = .result result state' rest) : rest.length ≤ buffer.length := by
  rw [chunkTurn] at h
  cases hchunk : state.chunkState with
  | readSizeLine =>
    rw [hchunk] at h
    dsimp only at h
    cases hcut : cut crlf buffer with
    | none =>
      rw [hcut] at h
      cases h
      exact le_rfl
    | some parts =>
      obtain ⟨sizeLine, after⟩ := parts
      rw [hcut] at h
      dsimp only at h
      have hlength := length_of_cut hcut
      cases hsize : sizeOfLine sizeLine with
      | none =>
        rw [hsize] at h
        cases h
        omega
      | some chunkSize =>
        rw [hsize] at h
        cases h
  | readData =>
    rw [hchunk] at h
    dsimp only at h
    split_ifs at h with hlt
    cases h
    exact le_rfl
  | readDataCRLF =>
    rw [hchunk] at h
    dsimp only at h
    split_ifs at h <;> cases h <;> exact le_rfl
  | readTrailers =>
    rw [hchunk] at h
    dsimp only at h
    split_ifs at h with hlt hempty
    · cases h
      exact le_rfl
    · cases h
      rw [List.length_drop]
      omega
    · cases hcut : cut headEnd buffer with
      | none =>
        rw [hcut] at h
        cases h
        exact le_rfl
      | some parts =>
        obtain ⟨trailers, after⟩ := parts
        have hlength := length_of_cut hcut
        rw [hcut] at h
        cases h
        omega
  | done =>
    rw [hchunk] at h
    cases h
    exact le_rfl

/-- A head is consumed as a whole. -/
theorem headerTurn_consumes (state : ParserState) (buffer : List UInt8) :
    match headerTurn state buffer with
    | .complete _ rest => ∃ block, cut headEnd buffer = some (block, rest)
    | .body state' rest =>
      (∃ block, cut headEnd buffer = some (block, rest)) ∧ state'.headerParsed = true
    | _ => True := by
  rw [headerTurn]
  cases cut headEnd buffer with
  | none => trivial
  | some parts =>
    obtain ⟨block, after⟩ := parts
    dsimp only
    cases parseHeader block state.head with
    | throws => trivial
    | rejected => trivial
    | parsed head =>
      dsimp only
      split_ifs
      · exact ⟨block, rfl⟩
      · exact ⟨⟨block, rfl⟩, rfl⟩

theorem headerTurn_complete (h : headerTurn state buffer = .complete response rest) :
    ∃ block, cut headEnd buffer = some (block, rest) := by
  have hconsumes := headerTurn_consumes state buffer
  rwa [h] at hconsumes

theorem headerTurn_body (h : headerTurn state buffer = .body state' rest) :
    (∃ block, cut headEnd buffer = some (block, rest)) ∧ state'.headerParsed = true := by
  have hconsumes := headerTurn_consumes state buffer
  rwa [h] at hconsumes

/-- **`parse_all` as a reader.** -/
def responseReader : Reader (Option ParserState) UInt8 HttpsClientResponse where
  step := responseStep
  size := responseSize
  decreases := by
    intro s buf s' out rest h
    cases s with
    | none => cases h
    | some state =>
      rw [responseStep] at h
      rw [responseSize, responseSize, Option.map_some, Option.getD_some]
      have hreset : ParserState.reset.rank = 0 := rfl
      have hmark : headEnd.length = 4 := rfl
      split_ifs at h with hparsed hchunked hlt
      · have hrank := ParserState.rank_pos hparsed
        cases hturn : chunkTurn state buf with
        | more state' after =>
          rw [hturn] at h
          cases h
          exact (chunkTurn_more hturn).2.2 hparsed
        | result result state' after =>
          have hlength := chunkTurn_length hturn
          rw [hturn] at h
          cases result <;> cases h
          rw [Option.map_some, Option.getD_some, hreset]
          omega
      · have hrank := ParserState.rank_pos hparsed
        cases h
        rw [Option.map_some, Option.getD_some, hreset, List.length_drop]
        omega
      · cases hturn : headerTurn state buf with
        | wait =>
          rw [hturn] at h
          cases h
        | throws =>
          rw [hturn] at h
          cases h
        | complete response after =>
          obtain ⟨block, hcut⟩ := headerTurn_complete hturn
          have hlength := length_of_cut hcut
          rw [hturn] at h
          cases h
          rw [Option.map_some, Option.getD_some, hreset]
          omega
        | body state' after =>
          obtain ⟨⟨block, hcut⟩, -⟩ := headerTurn_body hturn
          have hlength := length_of_cut hcut
          have hrank := state'.rank_le
          rw [hturn] at h
          cases h
          rw [Option.map_some, Option.getD_some]
          omega

@[simp] theorem responseReader_step (state : Option ParserState) (buffer : List UInt8) :
    responseReader.step state buffer = responseStep state buffer := rfl

/-! ## The turns -/

theorem step_wait (hparsed : state.headerParsed = false) (h : headerTurn state buffer = .wait) :
    responseReader.step (some state) buffer = .stop (some state) buffer := by
  rw [responseReader_step, responseStep, if_neg (by simp [hparsed]), h]

theorem step_throws (hparsed : state.headerParsed = false) (h : headerTurn state buffer = .throws) :
    responseReader.step (some state) buffer = .stop none buffer := by
  rw [responseReader_step, responseStep, if_neg (by simp [hparsed]), h]

theorem step_complete (hparsed : state.headerParsed = false)
    (h : headerTurn state buffer = .complete response rest) :
    responseReader.step (some state) buffer = .next (some .reset) [response] rest := by
  rw [responseReader_step, responseStep, if_neg (by simp [hparsed]), h]

theorem step_body (hparsed : state.headerParsed = false)
    (h : headerTurn state buffer = .body state' rest) :
    responseReader.step (some state) buffer = .next (some state') [] rest := by
  rw [responseReader_step, responseStep, if_neg (by simp [hparsed]), h]

theorem step_more (hparsed : state.headerParsed = true) (hchunked : state.head.isChunked = true)
    (h : chunkTurn state buffer = .more state' rest) :
    responseReader.step (some state) buffer = .next (some state') [] rest := by
  rw [responseReader_step, responseStep, if_pos hparsed, if_pos hchunked, h]

theorem step_done (hparsed : state.headerParsed = true) (hchunked : state.head.isChunked = true)
    (h : chunkTurn state buffer = .result .done state' rest) :
    responseReader.step (some state) buffer = .next (some .reset) [state'.completed] rest := by
  rw [responseReader_step, responseStep, if_pos hparsed, if_pos hchunked, h]

theorem step_returned (result : ChunkParseResult) (hne : result ≠ .done)
    (hparsed : state.headerParsed = true) (hchunked : state.head.isChunked = true)
    (h : chunkTurn state buffer = .result result state' rest) :
    responseReader.step (some state) buffer = .stop (some state') rest := by
  rw [responseReader_step, responseStep, if_pos hparsed, if_pos hchunked, h]
  cases result with
  | done => exact absurd rfl hne
  | needMoreData => rfl
  | error => rfl

theorem step_short (hparsed : state.headerParsed = true) (hchunked : state.head.isChunked = false)
    (h : buffer.length < state.bodySize) :
    responseReader.step (some state) buffer = .stop (some state) buffer := by
  rw [responseReader_step, responseStep, if_pos hparsed, if_neg (by simp [hchunked]), if_pos h]

theorem step_whole (hparsed : state.headerParsed = true) (hchunked : state.head.isChunked = false)
    (h : ¬ buffer.length < state.bodySize) :
    responseReader.step (some state) buffer =
      .next (some .reset) [(state.withBody (buffer.take state.bodySize)).completed]
        (buffer.drop state.bodySize) := by
  rw [responseReader_step, responseStep, if_pos hparsed, if_neg (by simp [hchunked]), if_neg h]

/-! ## The loops are the reader -/

/-- What `parse_all` does with the result of a chunked body. -/
def afterChunks (result : ChunkParseResult × ParserState × List UInt8) :
    After (Option ParserState) UInt8 HttpsClientResponse :=
  match result with
  | (.done, state', rest) =>
    (responseReader.drain (some .reset) rest).prepend [state'.completed]
  | (_, state', rest) => ⟨some state', [], rest⟩

/-- **The chunk loop** is done by turns of the reader. -/
theorem drain_chunked {fuel : ℕ} (hparsed : state.headerParsed = true)
    (hchunked : state.head.isChunked = true)
    (hfuel : 3 * buffer.length + state.rank < fuel) :
    responseReader.drain (some state) buffer = afterChunks (chunkTurns fuel state buffer) := by
  induction fuel generalizing state buffer with
  | zero => exact absurd hfuel (Nat.not_lt_zero _)
  | succ fuel ih =>
    rw [chunkTurns]
    cases hturn : chunkTurn state buffer with
    | more state' rest =>
      obtain ⟨hparsed', hchunked', hlt⟩ := chunkTurn_more hturn
      have := hlt hparsed
      rw [Reader.drain_next (step_more hparsed hchunked hturn),
        ih (hparsed'.trans hparsed) (hchunked'.trans hchunked) (by omega)]
      rfl
    | result result state' rest =>
      cases result with
      | done =>
        rw [Reader.drain_next (step_done hparsed hchunked hturn)]
        rfl
      | needMoreData =>
        rw [Reader.drain_stop (step_returned _ (by decide) hparsed hchunked hturn)]
        rfl
      | error =>
        rw [Reader.drain_stop (step_returned _ (by decide) hparsed hchunked hturn)]
        rfl

theorem chunkTurns_length {fuel : ℕ} {result : ChunkParseResult}
    (hparsed : state.headerParsed = true)
    (h : chunkTurns fuel state buffer = (result, state', rest)) :
    3 * rest.length < 3 * buffer.length + state.rank := by
  induction fuel generalizing state buffer with
  | zero =>
    cases h
    have hrank := ParserState.rank_pos hparsed
    omega
  | succ fuel ih =>
    rw [chunkTurns] at h
    cases hturn : chunkTurn state buffer with
    | more state'' rest' =>
      obtain ⟨hparsed', -, hlt⟩ := chunkTurn_more hturn
      have hless := hlt hparsed
      rw [hturn] at h
      have hrest := ih (hparsed'.trans hparsed) h
      omega
    | result result' state'' rest' =>
      have hlength := chunkTurn_length hturn
      have hrank := ParserState.rank_pos hparsed
      rw [hturn] at h
      cases h
      omega

/-- The loop has returned what the reader has given out, unless it has thrown. -/
def Agrees (after : After (Option ParserState) UInt8 HttpsClientResponse)
    (result : ParseAllResult) : Prop :=
  ∀ state, after.state = some state → result = (some after.out, state, after.rest)

theorem Agrees.prepend {after : After (Option ParserState) UInt8 HttpsClientResponse}
    {result : ParseAllResult} (h : Agrees after result) (response : HttpsClientResponse) :
    Agrees (after.prepend [response]) (result.prepend response) := by
  intro state hstate
  rw [h state hstate]
  rfl

/-- The body, if the loop agrees with the reader behind it. -/
theorem agrees_parseBody {goOn : List UInt8 → ParseAllResult} (hparsed : state.headerParsed = true)
    (h : ∀ rest, 3 * rest.length < 3 * buffer.length + state.rank →
      Agrees (responseReader.drain (some .reset) rest) (goOn rest)) :
    Agrees (responseReader.drain (some state) buffer) (parseBody goOn state buffer) := by
  rw [parseBody]
  by_cases hchunked : state.head.isChunked = true
  · have hrank := state.rank_le
    have hfuel : 3 * buffer.length + state.rank < 3 * buffer.length + 3 := by omega
    rw [if_pos hchunked, parseChunkedBody, drain_chunked hparsed hchunked hfuel]
    cases hturns : chunkTurns (3 * buffer.length + 3) state buffer with
    | mk result after =>
      obtain ⟨state', rest⟩ := after
      have hlength := chunkTurns_length hparsed hturns
      cases result with
      | done => exact (h rest hlength).prepend _
      | needMoreData => intro state'' hstate; cases hstate; rfl
      | error => intro state'' hstate; cases hstate; rfl
  · rw [if_neg hchunked]
    rw [Bool.not_eq_true] at hchunked
    split_ifs with hlt
    · rw [Reader.drain_stop (step_short hparsed hchunked hlt)]
      intro state'' hstate
      cases hstate
      rfl
    · have hrank := ParserState.rank_pos hparsed
      rw [Reader.drain_next (step_whole hparsed hchunked hlt)]
      exact (h _ (by rw [List.length_drop]; omega)).prepend _

/-- **The loop of `parse_all` is the reader**, unless it throws. -/
theorem agrees_parseAllLoop {fuel : ℕ} (hfuel : responseSize (some state) buffer < fuel) :
    Agrees (responseReader.drain (some state) buffer) (parseAllLoop fuel state buffer) := by
  induction fuel generalizing state buffer with
  | zero => exact absurd hfuel (Nat.not_lt_zero _)
  | succ fuel ih =>
    rw [responseSize, Option.map_some, Option.getD_some] at hfuel
    rw [parseAllLoop]
    by_cases hparsed : state.headerParsed = true
    · rw [if_pos hparsed]
      refine agrees_parseBody hparsed fun rest hlt => ih ?_
      change 3 * rest.length + 0 < fuel
      omega
    · have hmark : headEnd.length = 4 := rfl
      rw [if_neg hparsed]
      rw [Bool.not_eq_true] at hparsed
      cases hturn : headerTurn state buffer with
      | wait =>
        rw [Reader.drain_stop (step_wait hparsed hturn)]
        intro state'' hstate
        cases hstate
        rfl
      | throws =>
        rw [Reader.drain_stop (step_throws hparsed hturn)]
        intro state'' hstate
        cases hstate
      | complete response rest =>
        obtain ⟨block, hcut⟩ := headerTurn_complete hturn
        have hlength := length_of_cut hcut
        rw [Reader.drain_next (step_complete hparsed hturn)]
        refine (ih ?_).prepend response
        change 3 * rest.length + 0 < fuel
        omega
      | body state' rest =>
        obtain ⟨⟨block, hcut⟩, hparsed'⟩ := headerTurn_body hturn
        have hlength := length_of_cut hcut
        have hrank := state'.rank_le
        rw [Reader.drain_next (step_body hparsed hturn)]
        refine agrees_parseBody hparsed' fun rest' hlt => ih ?_
        change 3 * rest'.length + 0 < fuel
        omega

namespace HttpsClientResponseParser

/-- **`parse_all` is the reader**, unless it throws. -/
theorem parseAll_eq {parser : HttpsClientResponseParser}
    (h : (responseReader.drain (some parser.state) parser.buffer).state = some state') :
    parser.parseAll = (some (responseReader.drain (some parser.state) parser.buffer).out,
      ⟨(responseReader.drain (some parser.state) parser.buffer).rest, state'⟩) := by
  have hrank := parser.state.rank_le
  have hfuel : responseSize (some parser.state) parser.buffer < 3 * parser.buffer.length + 3 := by
    rw [responseSize, Option.map_some, Option.getD_some]
    omega
  rw [parseAll, agrees_parseAllLoop hfuel state' h]

/-- What has thrown has thrown. -/
theorem feedAll_none (rest : List UInt8) (pieces : List (List UInt8)) :
    (responseReader.feedAll none rest pieces).state = none := by
  induction pieces generalizing rest with
  | nil => rfl
  | cons piece pieces ih =>
    have hstop : responseReader.drain none (rest ++ piece) = ⟨none, [], rest ++ piece⟩ :=
      Reader.drain_stop rfl
    rw [Reader.feedAll, After.state_prepend, hstop, ih]

/-- **`append_data` and `parse_all` for each piece** are the reader, unless a call throws. -/
theorem feedPieces_eq {parser : HttpsClientResponseParser} {pieces : List (List UInt8)}
    (h : (responseReader.feedAll (some parser.state) parser.buffer pieces).state = some state') :
    parser.feedPieces pieces =
      (some (responseReader.feedAll (some parser.state) parser.buffer pieces).out,
        ⟨(responseReader.feedAll (some parser.state) parser.buffer pieces).rest, state'⟩) := by
  induction pieces generalizing parser with
  | nil =>
    cases h
    rfl
  | cons piece pieces ih =>
    rw [Reader.feedAll] at h ⊢
    rw [After.state_prepend] at h
    cases hdrain : (responseReader.drain (some parser.state) (parser.buffer ++ piece)).state with
    | none =>
      rw [hdrain, feedAll_none] at h
      cases h
    | some next =>
      have hcall : (parser.appendData piece).parseAll =
          (some (responseReader.drain (some parser.state) (parser.buffer ++ piece)).out,
            ⟨(responseReader.drain (some parser.state) (parser.buffer ++ piece)).rest, next⟩) :=
        parseAll_eq hdrain
      rw [hdrain] at h
      have htail : HttpsClientResponseParser.feedPieces
          ⟨(responseReader.drain (some parser.state) (parser.buffer ++ piece)).rest, next⟩
            pieces = _ :=
        ih h
      rw [feedPieces, hcall]
      dsimp only
      rw [htail]
      rfl

end HttpsClientResponseParser

end TradingEngine
