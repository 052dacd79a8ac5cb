import TradingEngine.Http.ResponseReader
import TradingEngine.Http.WireFormat

/-!
# Http/ResponseStream — the responses of a stream, however it is cut

The tokens of a response are its head, and then its body, or the size line, the data and the line
end of each chunk and the trailers.  Only the last token gives the response out, so a response is
returned when its last byte has come and not before.
-/

namespace TradingEngine

open Ascii Incremental HttpsClientResponse

variable {head : WireHead} {body : List UInt8}

/-- The parser behind a head, with the body so far. -/
def ParserState.behind (head : WireHead) (body : List UInt8) : ParserState :=
  ⟨⟨head.response body false, head.contentLength, head.isChunked⟩, true, .readSizeLine, 0⟩

/-! ## The head -/

/-- A part of a token is no token. -/
theorem length_lt_of_part {p t : List UInt8} (hpre : p <+: t) (hne : p ≠ t) : p.length < t.length :=
  lt_of_le_of_ne hpre.length_le fun heq => hne (hpre.eq_of_length heq)

/-- A block of header lines ends at its empty line, and is read as `parsed`. -/
structure ReadsHead (block : List UInt8) (parsed : Head) : Prop where
  ends : cut headEnd (block ++ headEnd) = some (block, [])
  reads : parseHeader block ParserState.reset.head = .parsed parsed

/-- The parser behind a head. -/
def ParserState.afterHead (parsed : Head) : ParserState := ⟨parsed, true, .readSizeLine, 0⟩

section Block

variable {block : List UInt8} {parsed : Head}

theorem ReadsHead.headerTurn_part (h : ReadsHead block parsed) {p : List UInt8}
    (hpre : p <+: block ++ headEnd) (hne : p ≠ block ++ headEnd) :
    headerTurn .reset p = .wait := by
  rw [headerTurn, cut_part h.ends hpre hne]

theorem ReadsHead.headerTurn_bytes (h : ReadsHead block parsed) (rest : List UInt8) :
    headerTurn .reset (block ++ headEnd ++ rest) =
      if ¬ parsed.isChunked ∧ parsed.contentLength = 0 then
        .complete (ParserState.afterHead parsed).completed rest
      else .body (.afterHead parsed) rest := by
  rw [headerTurn, cut_append h.ends rest]
  dsimp only
  rw [h.reads]
  rfl

theorem block_ne_nil : block ++ headEnd ≠ [] :=
  List.append_ne_nil_of_right_ne_nil _ (List.cons_ne_nil _ _)

/-- **A head without a body** is a response. -/
theorem ReadsHead.takes_complete (h : ReadsHead block parsed) (hchunked : parsed.isChunked = false)
    (hlength : parsed.contentLength = 0) :
    responseReader.Takes (some .reset) (block ++ headEnd)
      [(ParserState.afterHead parsed).completed] (some .reset) where
  ne_nil := block_ne_nil
  whole rest := by
    refine step_complete rfl ?_
    rw [h.headerTurn_bytes, if_pos ⟨by simp [hchunked], hlength⟩]
  part hpre hne := step_wait rfl (h.headerTurn_part hpre hne)

/-- **A head in front of a body.** -/
theorem ReadsHead.takes_head (h : ReadsHead block parsed)
    (hbody : parsed.isChunked = true ∨ parsed.contentLength ≠ 0) :
    responseReader.Takes (some .reset) (block ++ headEnd) [] (some (.afterHead parsed)) where
  ne_nil := block_ne_nil
  whole rest := by
    refine step_body rfl ?_
    rw [h.headerTurn_bytes, if_neg]
    rintro ⟨hchunked, hlength⟩
    exact hbody.elim hchunked fun hne => hne hlength
  part hpre hne := step_wait rfl (h.headerTurn_part hpre hne)

theorem bodySize_afterHead (hlength : parsed.contentLength = body.length)
    (hlt : body.length < 2 ^ 31) : (ParserState.afterHead parsed).bodySize = body.length := by
  change (parsed.contentLength % 2 ^ 64).toNat = body.length
  rw [hlength]
  omega

/-- **The body of a response with a length.** -/
theorem takes_body (hne : body ≠ []) (hchunked : parsed.isChunked = false)
    (hlength : parsed.contentLength = body.length) (hlt : body.length < 2 ^ 31) :
    responseReader.Takes (some (.afterHead parsed)) body
      [((ParserState.afterHead parsed).withBody body).completed] (some .reset) where
  ne_nil := hne
  whole rest := by
    have hsize := bodySize_afterHead hlength hlt
    have hlong : ¬ (body ++ rest).length < (ParserState.afterHead parsed).bodySize := by
      rw [hsize, List.length_append]
      omega
    rw [step_whole rfl hchunked hlong, hsize, List.take_left, List.drop_left]
  part hpre hpart :=
    step_short rfl hchunked ((bodySize_afterHead hlength hlt).symm ▸ length_lt_of_part hpre hpart)

/-- **The tokens of a response with a length**: the last one gives it out. -/
theorem ReadsHead.exists_path (h : ReadsHead block parsed) (hchunked : parsed.isChunked = false)
    (hempty : parsed.response.body = []) (hlength : parsed.contentLength = body.length)
    (hlt : body.length < 2 ^ 31) :
    ∃ ts tok, responseReader.Path (some .reset) (ts ++ [tok]) (some .reset) ∧
      Reader.outs ts = [] ∧ tok.2 = [((ParserState.afterHead parsed).withBody body).completed] ∧
        Reader.bytes ts ++ tok.1 = block ++ headEnd ++ body := by
  by_cases hbody : body = []
  · -- the head is all there is
    subst hbody
    refine ⟨[], _, .cons (h.takes_complete hchunked hlength) (.nil _), rfl, ?_, ?_⟩
    · rw [ParserState.withBody, ParserState.completed, ParserState.completed, ← hempty]
      rfl
    · exact (List.append_nil (block ++ headEnd)).symm
  · have hne : parsed.contentLength ≠ 0 := by
      rw [hlength]
      exact_mod_cast fun h => hbody (List.length_eq_zero_iff.mp h)
    exact ⟨[_], _, .cons (h.takes_head (.inr hne))
      (.cons (takes_body hbody hchunked hlength hlt) (.nil _)), rfl, rfl, by simp⟩

end Block

theorem readsHead_block :
    ReadsHead head.block ⟨head.response [] false, head.contentLength, head.isChunked⟩ :=
  ⟨cut_block, parseHeader_block⟩

/-! ## A body with a length -/

/-- The length of the head is that of its length fields. -/
theorem foldl_count {fields : List HeaderField} {n L : ℤ}
    (hlength : ∀ field ∈ fields, field.isLength = true → (ofDecimal field.value : ℤ) = L)
    (hchunked : ∀ field ∈ fields, field.isChunked = false)
    (hsome : (∃ field ∈ fields, field.isLength = true) ∨ n = L) :
    fields.foldl HeaderField.count n = L := by
  induction fields generalizing n with
  | nil =>
    rcases hsome with ⟨field, hmem, -⟩ | heq
    · exact absurd hmem List.not_mem_nil
    · exact heq
  | cons field fields ih =>
    refine ih (fun f hf => hlength f (List.mem_cons_of_mem field hf))
      (fun f hf => hchunked f (List.mem_cons_of_mem field hf)) ?_
    rw [HeaderField.count]
    by_cases hfield : field.isLength = true
    · rw [if_pos hfield]
      exact .inr (hlength field List.mem_cons_self hfield)
    · rw [if_neg hfield, if_neg (by simp [hchunked field List.mem_cons_self])]
      rcases hsome with ⟨f, hmem, hf⟩ | heq
      · rcases List.mem_cons.mp hmem with heq | hmem
        · exact absurd (heq ▸ hf) hfield
        · exact .inl ⟨f, hmem, hf⟩
      · exact .inr heq

/-! ## A body in chunks -/

/-- The line end is found behind a size line. -/
theorem cut_sizeLine (size : SizeLine) : cut crlf (size.line ++ crlf) = some (size.line, []) :=
  cut_of_notMem_mark (cr_notMem_line size) [lf] []

/-- The parser behind a size line. -/
def ParserState.sized (head : WireHead) (body : List UInt8) (n : ℕ) : ParserState :=
  { ParserState.behind head body with
    chunkBytesRemaining := n
    chunkState := if n = 0 then .readTrailers else .readData }

/-- The parser behind the data of a chunk. -/
def ParserState.filled (head : WireHead) (body : List UInt8) (n : ℕ) : ParserState :=
  { ParserState.behind head body with chunkBytesRemaining := n, chunkState := .readDataCRLF }

/-- **A size line.** -/
theorem takes_sizeLine (hchunked : head.isChunked = true) (body : List UInt8) (size : SizeLine) :
    responseReader.Takes (some (.behind head body)) (size.line ++ crlf) []
      (some (.sized head body size.size)) where
  ne_nil := List.append_ne_nil_of_right_ne_nil _ (List.cons_ne_nil _ _)
  whole rest := by
    have hturn : chunkTurn (.behind head body) (size.line ++ crlf ++ rest) =
        .more (.sized head body size.size) rest := by
      simp only [chunkTurn, ParserState.behind]
      rw [cut_append (cut_sizeLine size) rest]
      dsimp only
      rw [sizeOfLine_line]
      rfl
    exact step_more rfl hchunked hturn
  part {p} hpre hne := by
    have hturn : chunkTurn (.behind head body) p = .result .needMoreData (.behind head body) p := by
      simp only [chunkTurn, ParserState.behind]
      rw [cut_part (cut_sizeLine size) hpre hne]
    exact step_returned _ (by decide) rfl hchunked hturn

/-- **The data of a chunk.** -/
theorem takes_data (hchunked : head.isChunked = true) {data : List UInt8} (hne : data ≠ []) :
    responseReader.Takes (some (.sized head body data.length)) data []
      (some (.filled head (body ++ data) data.length)) where
  ne_nil := hne
  whole rest := by
    have hpos : data.length ≠ 0 := fun h => hne (List.length_eq_zero_iff.mp h)
    have hturn : chunkTurn (.sized head body data.length) (data ++ rest) =
        .more (.filled head (body ++ data) data.length) rest := by
      simp only [chunkTurn, ParserState.sized, hpos, if_false]
      rw [if_neg (by rw [List.length_append]; omega), List.take_left, List.drop_left]
      rfl
    exact step_more rfl hchunked hturn
  part {p} hpre hpart := by
    have hpos : data.length ≠ 0 := fun h => hne (List.length_eq_zero_iff.mp h)
    have hturn : chunkTurn (.sized head body data.length) p =
        .result .needMoreData (.sized head body data.length) p := by
      simp only [chunkTurn, ParserState.sized, hpos, if_false]
      rw [if_pos (length_lt_of_part hpre hpart)]
    exact step_returned _ (by decide) rfl hchunked hturn

/-- **The line end of a chunk.** -/
theorem takes_crlf (hchunked : head.isChunked = true) (n : ℕ) :
    responseReader.Takes (some (.filled head body n)) crlf [] (some (.behind head body)) where
  ne_nil := List.cons_ne_nil _ _
  whole rest := step_more rfl hchunked rfl
  part {p} hpre hne := by
    have hlt : p.length < 2 := length_lt_of_part hpre hne
    have hturn : chunkTurn (.filled head body n) p =
        .result .needMoreData (.filled head body n) p := by
      simp only [chunkTurn, ParserState.filled]
      rw [if_pos hlt]
    exact step_returned _ (by decide) rfl hchunked hturn

/-- Trailers that are not empty end at the empty line. -/
theorem chunkTurn_trailers {buffer : List UInt8} (hlength : ¬ buffer.length < 2)
    (hhead : buffer.head? ≠ some cr) :
    (cut headEnd buffer = none →
      chunkTurn (.sized head body 0) buffer = .result .needMoreData (.sized head body 0) buffer) ∧
    ∀ block rest, cut headEnd buffer = some (block, rest) →
      chunkTurn (.sized head body 0) buffer =
        .result .done { ParserState.sized head body 0 with chunkState := .done } rest := by
  have hne : buffer.take 2 ≠ crlf := by
    intro heq
    refine hhead ?_
    have hfirst := List.head?_take (l := buffer) (i := 2)
    rw [heq, if_neg (by decide)] at hfirst
    exact hfirst.symm
  simp only [chunkTurn, ParserState.sized, if_true, if_neg hlength, if_neg hne]
  constructor
  · intro hcut
    rw [hcut]
  · intro block rest hcut
    rw [hcut]

/-- The trailers end at their empty line. -/
theorem trailerPart_eq (last : LastChunk) :
    last.trailerPart = crlf ∨ ∃ block, cut headEnd last.trailerPart = some (block, []) ∧
      last.trailerPart.head? ≠ some cr := by
  cases htrailers : last.trailers with
  | nil =>
    refine .inl ?_
    rw [LastChunk.trailerPart, htrailers]
    rfl
  | cons first lines =>
    have hchar : ∀ trailer ∈ first :: lines, trailer ≠ [] ∧ cr ∉ trailer := fun trailer hmem =>
      last.trailer_char trailer (htrailers ▸ hmem)
    obtain ⟨hne, hcr⟩ := hchar first List.mem_cons_self
    have hjoin : ∀ (first : List UInt8) (lines : List (List UInt8)),
        (first :: lines).flatMap (· ++ crlf) ++ crlf = joinLines first lines ++ headEnd := by
      intro first lines
      induction lines generalizing first with
      | nil => simp [joinLines, headEnd]
      | cons line lines ih =>
        rw [List.flatMap_cons, List.append_assoc, ih, joinLines_cons]
        simp only [List.append_assoc]
    have heq : last.trailerPart = joinLines first lines ++ headEnd := by
      rw [LastChunk.trailerPart, htrailers, hjoin]
    rw [heq]
    refine .inr ⟨joinLines first lines, ?_, ?_⟩
    · exact cut_headEnd hcr fun line hmem => hchar line (List.mem_cons_of_mem first hmem)
    · obtain ⟨c, tail, rfl⟩ := List.exists_cons_of_ne_nil hne
      rw [joinLines, List.cons_append, List.cons_append, List.head?_cons, Ne, Option.some_inj]
      exact fun h => (List.ne_and_not_mem_of_not_mem_cons hcr).1 h.symm

/-- **The trailers**: with their last byte the response is given out. -/
theorem takes_trailers (hchunked : head.isChunked = true) (last : LastChunk) :
    responseReader.Takes (some (.sized head body 0)) last.trailerPart [head.response body true]
      (some .reset) where
  ne_nil := List.append_ne_nil_of_right_ne_nil _ (List.cons_ne_nil _ _)
  whole rest := by
    have hturn : chunkTurn (.sized head body 0) (last.trailerPart ++ rest) =
        .result .done { ParserState.sized head body 0 with chunkState := .done } rest := by
      rcases trailerPart_eq last with hempty | ⟨block, hcut, hhead⟩
      · rw [hempty]
        rfl
      · have hlength : 2 ≤ last.trailerPart.length := by
          rw [LastChunk.trailerPart, List.length_append]
          exact Nat.le_add_left _ _
        refine (chunkTurn_trailers ?_ ?_).2 block rest (cut_append hcut rest)
        · rw [List.length_append]
          omega
        · rwa [List.head?_append_of_ne_nil _ (List.ne_nil_of_length_pos (by omega))]
    exact step_done rfl hchunked hturn
  part {p} hpre hpart := by
    have hturn : chunkTurn (.sized head body 0) p =
        .result .needMoreData (.sized head body 0) p := by
      have hlt := length_lt_of_part hpre hpart
      by_cases hshort : p.length < 2
      · simp only [chunkTurn, ParserState.sized, if_true, if_pos hshort]
      · rcases trailerPart_eq last with hempty | ⟨block, hcut, hhead⟩
        · rw [hempty] at hlt
          exact absurd hlt hshort
        · refine (chunkTurn_trailers hshort ?_).1 (cut_part hcut hpre hpart)
          obtain ⟨tail, htail⟩ := hpre
          rwa [← htail,
            List.head?_append_of_ne_nil _ (List.ne_nil_of_length_pos (by omega))] at hhead
    exact step_returned _ (by decide) rfl hchunked hturn

/-! ## Responses -/

/-- The chunks of a body. -/
theorem exists_path_chunks (hchunked : head.isChunked = true) (chunks : List Chunk)
    (body : List UInt8) :
    ∃ ts, responseReader.Path (some (.behind head body)) ts
        (some (.behind head (body ++ chunks.flatMap Chunk.data))) ∧
      Reader.bytes ts = chunks.flatMap Chunk.bytes ∧ Reader.outs ts = [] := by
  induction chunks generalizing body with
  | nil =>
    rw [List.flatMap_nil, List.append_nil]
    exact ⟨[], .nil _, rfl, rfl⟩
  | cons chunk chunks ih =>
    obtain ⟨ts, hpath, hbytes, houts⟩ := ih (body ++ chunk.data)
    have hsize := takes_sizeLine hchunked body chunk.sizeLine
    rw [chunk.data_length] at hsize
    rw [List.append_assoc] at hpath
    have hchunk := Reader.Path.cons hsize
      (.cons (takes_data hchunked chunk.data_ne) (.cons (takes_crlf hchunked _) hpath))
    refine ⟨_, hchunk, ?_, ?_⟩
    · simp only [Reader.bytes_cons, hbytes, List.flatMap_cons, Chunk.bytes, List.append_assoc]
    · simp only [Reader.outs_cons, houts, List.append_nil]

/-- **The tokens of a response**: the last one gives it out. -/
theorem exists_path_response (response : WireResponse) :
    ∃ ts tok, responseReader.Path (some .reset) (ts ++ [tok]) (some .reset) ∧
      Reader.outs ts = [] ∧ tok.2 = [response.received] ∧
        Reader.bytes ts ++ tok.1 = response.bytes := by
  obtain ⟨head, framing, framed⟩ := response
  cases framing with
  | length body =>
    obtain ⟨hchunked, ⟨field, hfield, hlengthField⟩, hvalue⟩ := framed
    have hlt : body.length < 2 ^ 31 :=
      hvalue field hfield hlengthField ▸ (head.numeric field hfield hlengthField).2.2
    have hlength : head.contentLength = body.length := by
      refine foldl_count (fun f hf hf' => by rw [hvalue f hf hf']) (fun f hf => ?_)
        (.inl ⟨field, hfield, hlengthField⟩)
      rw [WireHead.isChunked, List.any_eq_false] at hchunked
      simpa using hchunked f hf
    exact readsHead_block.exists_path hchunked rfl hlength hlt
  | chunked chunks last =>
    have hchunked : head.isChunked = true := framed
    obtain ⟨ts, hpath, hbytes, houts⟩ := exists_path_chunks hchunked chunks []
    have hsize := takes_sizeLine hchunked ([] ++ chunks.flatMap Chunk.data) last.sizeLine
    rw [last.size_zero] at hsize
    have hend := Reader.Path.cons hsize (.cons (takes_trailers hchunked last) (.nil _))
    have hall := Reader.Path.cons (readsHead_block.takes_head (.inl hchunked)) (hpath.append hend)
    refine ⟨(head.bytes, []) :: (ts ++ [(last.sizeLine.line ++ crlf, [])]),
      (last.trailerPart, [head.response ([] ++ chunks.flatMap Chunk.data) true]), ?_, ?_, rfl, ?_⟩
    · rw [List.cons_append, List.append_assoc]
      exact hall
    · simp only [Reader.outs_cons, Reader.outs_append, houts, Reader.outs_nil, List.append_nil]
    · simp only [Reader.bytes_cons, Reader.bytes_append, hbytes, Reader.bytes_nil, List.append_nil,
        WireResponse.bytes, Framing.bytes, LastChunk.bytes, List.append_assoc]

/-! ## The stream -/

/-- The bytes of some responses. -/
def streamOf (responses : List WireResponse) : List UInt8 := responses.flatMap WireResponse.bytes

/-- The responses whose last byte is among the first `n` bytes. -/
def arrivedResponses : List WireResponse → ℕ → List HttpsClientResponse
  | [], _ => []
  | response :: responses, n =>
    if response.bytes.length ≤ n then
      response.received :: arrivedResponses responses (n - response.bytes.length)
    else []

theorem arrivedResponses_all (responses : List WireResponse) :
    arrivedResponses responses (streamOf responses).length =
      responses.map WireResponse.received := by
  induction responses with
  | nil => rfl
  | cons response responses ih =>
    have hlength : (streamOf (response :: responses)).length =
        response.bytes.length + (streamOf responses).length := by
      rw [streamOf, List.flatMap_cons, List.length_append]
      rfl
    rw [arrivedResponses, hlength, if_pos (Nat.le_add_right _ _), Nat.add_sub_cancel_left, ih,
      List.map_cons]

/-- The stream is a path, and its tokens give out the responses that have arrived. -/
theorem exists_path_stream (responses : List WireResponse) :
    ∃ ts, responseReader.Path (some .reset) ts (some .reset) ∧
      Reader.bytes ts = streamOf responses ∧
      ∀ n, Reader.arrived ts n = arrivedResponses responses n := by
  induction responses with
  | nil => exact ⟨[], .nil _, rfl, fun n => rfl⟩
  | cons response responses ih =>
    obtain ⟨ts', hpath', hbytes', harrived⟩ := ih
    obtain ⟨ts, tok, hpath, houts, hout, hbytes⟩ := exists_path_response response
    have hlength : (Reader.bytes (ts ++ [tok])).length = response.bytes.length := by
      rw [Reader.bytes_append, ← hbytes, Reader.bytes_cons, Reader.bytes_nil, List.append_nil]
    refine ⟨(ts ++ [tok]) ++ ts', hpath.append hpath', ?_, fun n => ?_⟩
    · rw [Reader.bytes_append, Reader.bytes_append, Reader.bytes_cons, Reader.bytes_nil,
        List.append_nil, hbytes, hbytes']
      rfl
    · rw [arrivedResponses]
      split_ifs with hle
      · obtain ⟨k, rfl⟩ := Nat.exists_eq_add_of_le hle
        rw [← hlength, Reader.arrived_append, harrived, Reader.outs_append, houts, Reader.outs_cons,
          hout, Nat.add_sub_cancel_left]
        rfl
      · rw [List.append_assoc, List.singleton_append]
        refine Reader.arrived_of_lt houts ?_
        rw [← List.length_append, hbytes]
        exact Nat.not_le.mp hle

/-- Between two responses the parser waits. -/
theorem waits_reset : responseReader.Waits (some .reset) [] := by
  intro p hpre
  rw [List.prefix_nil.mp hpre]
  exact step_wait rfl rfl

/-- What has thrown does not get to the end of a stream. -/
theorem exists_state_of_path {state : Option ParserState} {state' : ParserState}
    {ts : List (List UInt8 × List HttpsClientResponse)}
    (h : responseReader.Path state ts (some state')) :
    ∃ before, state = some before := by
  cases state with
  | some state => exact ⟨state, rfl⟩
  | none =>
    cases h with
    | cons htakes _ =>
      have hstop := htakes.whole []
      cases hstop

namespace HttpsClientResponseParser

/-- **A stream of tokens is read to its end**, however it is cut. -/
theorem feedPieces_of_path {ts : List (List UInt8 × List HttpsClientResponse)}
    {pieces : List (List UInt8)} (hpath : responseReader.Path (some .reset) ts (some .reset))
    (hcut : pieces.flatten = Reader.bytes ts) :
    fresh.feedPieces pieces = (some (Reader.outs ts), fresh) := by
  have hend : responseReader.feedAll (some fresh.state) fresh.buffer pieces =
      ⟨some .reset, Reader.outs ts, []⟩ :=
    Reader.feedAll_whole hpath waits_reset (hcut.trans (List.append_nil (Reader.bytes ts)).symm)
  have hstate := congrArg After.state hend
  rw [feedPieces_eq hstate, hend]
  rfl

/-- **The responses of a stream**, however it is cut: after each call those whose last byte has come
have been returned, in order; at the end all have, and the buffer is empty. -/
theorem feedPieces_stream {responses : List WireResponse} {pieces : List (List UInt8)}
    (hcut : pieces.flatten = streamOf responses) :
    (∀ k, (fresh.feedPieces (pieces.take k)).1 =
      some (arrivedResponses responses (pieces.take k).flatten.length)) ∧
    (fresh.feedPieces pieces).1 = some (responses.map WireResponse.received) ∧
    (fresh.feedPieces pieces).2.buffer = [] := by
  obtain ⟨ts, hpath, hbytes, harrived⟩ := exists_path_stream responses
  have hwhole : pieces.flatten = Reader.bytes ts ++ [] := by
    rw [hcut, hbytes, List.append_nil]
  -- a path that has not thrown goes on to the end of the stream
  have hread : ∀ k, (fresh.feedPieces (pieces.take k)).1 =
      some (arrivedResponses responses (pieces.take k).flatten.length) := by
    intro k
    have hpre : (pieces.take k).flatten <+: Reader.bytes ts ++ [] := by
      rw [← hwhole]
      nth_rewrite 2 [← List.take_append_drop k pieces]
      rw [List.flatten_append]
      exact List.prefix_append _ _
    obtain ⟨done, todo, -, htodo, -⟩ :=
      Reader.feedAll_path hpath waits_reset hpath.stuck_nil hpre
    obtain ⟨state, hstate⟩ := exists_state_of_path htodo
    have hout := Reader.feedAll_out hpath waits_reset hpre
    rw [feedPieces_eq hstate]
    exact congrArg some (hout.trans (harrived _))
  have hlast : (fresh.feedPieces pieces).2.buffer = [] := by
    rw [feedPieces_of_path hpath (hcut.trans hbytes.symm)]
    rfl
  refine ⟨hread, ?_, hlast⟩
  have hall := hread pieces.length
  rwa [List.take_length, hcut, arrivedResponses_all] at hall

/-- A response with a length. -/
def hiResponse : WireResponse where
  head :=
    { code := text "200"
      reason := text "OK"
      fields :=
        [{ name := text "content-length", before := [space], value := text "2", after := []
           name_char := forall_of_all (by decide)
           before_blank := forall_of_all (by decide)
           value_char := forall_of_all (by decide)
           value_head := by rintro _ ⟨⟩; rfl
           value_last := by rintro _ ⟨⟩; rfl
           after_blank := forall_of_all (by decide) }]
      code_digits := ⟨rfl, forall_of_all (by decide)⟩
      reason_char := forall_of_all (by decide)
      numeric := by
        intro field hfield _
        rw [List.mem_singleton.mp hfield]
        exact ⟨by decide, forall_of_all (by decide), by decide⟩ }
  framing := .length (text "hi")
  framed := by decide

/-- A response in chunks, with an extension and a trailer. -/
def chunkedResponse : WireResponse where
  head :=
    { code := text "404"
      reason := []
      fields :=
        [{ name := text "Transfer-ENCODING", before := [], value := text "Chunked", after := [tab]
           name_char := forall_of_all (by decide)
           before_blank := forall_of_all (by decide)
           value_char := forall_of_all (by decide)
           value_head := by rintro _ ⟨⟩; rfl
           value_last := by rintro _ ⟨⟩; rfl
           after_blank := forall_of_all (by decide) }]
      code_digits := ⟨rfl, forall_of_all (by decide)⟩
      reason_char := forall_of_all (by decide)
      numeric := by
        intro field hfield hlength
        rw [List.mem_singleton.mp hfield] at hlength
        exact absurd hlength (by decide) }
  framing :=
    .chunked
      [{ sizeLine :=
          { digits := text "02", blanks := [space], extension := text ";a=b"
            digits_ne := by decide
            digits_length := by decide
            digits_hex := forall_of_all (by decide)
            blanks_blank := forall_of_all (by decide)
            extension_head := by rintro _ ⟨⟩; rfl
            extension_char := by decide }
         data := [cr, lf]
         data_ne := by decide
         data_length := by decide }]
      { sizeLine :=
          { digits := text "0", blanks := [], extension := []
            digits_ne := by decide
            digits_length := by decide
            digits_hex := forall_of_all (by decide)
            blanks_blank := forall_of_all (by decide)
            extension_head := by rintro _ ⟨⟩
            extension_char := by decide }
        trailers := [text "X: y"]
        size_zero := by decide
        trailer_char := by decide }
  framed := by decide

/-- Two responses, cut inside the first head and inside the data of the chunk. -/
theorem hiAndChunked_received :
    (fresh.feedPieces [(streamOf [hiResponse, chunkedResponse]).take 5,
      ((streamOf [hiResponse, chunkedResponse]).drop 5).take 90,
      (streamOf [hiResponse, chunkedResponse]).drop 95]).1 =
      some [hiResponse.received, chunkedResponse.received] := by
  have hcut : List.flatten [(streamOf [hiResponse, chunkedResponse]).take 5,
      ((streamOf [hiResponse, chunkedResponse]).drop 5).take 90,
      (streamOf [hiResponse, chunkedResponse]).drop 95] =
      streamOf [hiResponse, chunkedResponse] := by decide
  exact (feedPieces_stream hcut).2.1

end HttpsClientResponseParser

end TradingEngine
