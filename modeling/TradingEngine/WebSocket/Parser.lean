import TradingEngine.Machinery.Incremental
import TradingEngine.WebSocket.Frame

/-!
# WebSocket/Parser — the frames of a stream, however it is cut

`WebSocketFrameParser` keeps a buffer and an offset, and compacts the buffer now and then.  What
counts is the part from the offset on: on it `parse_frames` is a reader, and no compaction moves
it.  A stream is a path of whole frames and a part of one more, so the pieces it comes in do not
matter.
-/

namespace TradingEngine

open Incremental

/-- `WebSocketFrameParser`: the offset stays within the buffer. -/
structure WebSocketFrameParser where
  buffer : List UInt8
  parseOffset : ℕ
  offset_le : parseOffset ≤ buffer.length

namespace WebSocketFrameParser

open WebSocket

/-- A new parser, and `clear`. -/
def clear : WebSocketFrameParser := ⟨[], 0, le_rfl⟩

/-- The bytes that are not parsed yet. -/
def remaining (parser : WebSocketFrameParser) : List UInt8 := parser.buffer.drop parser.parseOffset

/-- `buffered_size`. -/
def bufferedSize (parser : WebSocketFrameParser) : ℕ := parser.buffer.length - parser.parseOffset

/-- `feed`. -/
def feed (parser : WebSocketFrameParser) (data : List UInt8) : WebSocketFrameParser where
  buffer := parser.buffer ++ data
  parseOffset := parser.parseOffset
  offset_le := by
    rw [List.length_append]
    exact Nat.le_add_right_of_le parser.offset_le

/-- `m_parse_offset += total_size`. -/
def advance (parser : WebSocketFrameParser) (totalSize : ℕ)
    (h : totalSize ≤ parser.remaining.length) : WebSocketFrameParser where
  buffer := parser.buffer
  parseOffset := parser.parseOffset + totalSize
  offset_le := by
    rw [remaining, List.length_drop] at h
    have := parser.offset_le
    omega

/-- The end of `parse_frames`: a long parsed prefix is taken off the buffer. -/
def compact (parser : WebSocketFrameParser) : WebSocketFrameParser :=
  if parser.parseOffset > 0 then
    if parser.parseOffset = parser.buffer.length then clear
    else if parser.parseOffset ≥ 4096 ∨ parser.parseOffset > parser.buffer.length / 2 then
      ⟨parser.buffer.drop parser.parseOffset, 0, Nat.zero_le _⟩
    else parser
  else parser

end WebSocketFrameParser

namespace WebSocket

variable {p q : List UInt8} {header : Header} {frame : Frame} {n : ℕ}

/-! ## The header on another buffer -/

/-- Where the payload length ends. -/
theorem readPayloadLen_size {b1 : UInt8} {r : ℕ × ℕ} (h : readPayloadLen p b1 = some r)
    (hp : 2 ≤ p.length) : 2 ≤ r.2 ∧ r.2 ≤ 10 ∧ r.2 ≤ p.length := by
  rw [readPayloadLen] at h
  split_ifs at h <;> cases h <;> omega

/-- The payload length is read from the bytes of the header. -/
theorem readPayloadLen_congr {b1 : UInt8} {r : ℕ × ℕ} (h : readPayloadLen p b1 = some r)
    (hp : 2 ≤ p.length) (htake : q.take r.2 = p.take r.2) : readPayloadLen q b1 = some r := by
  have hsize := readPayloadLen_size h hp
  have hle : r.2 ≤ q.length := by
    have hlength := congrArg List.length htake
    rw [List.length_take, List.length_take] at hlength
    omega
  have hbytes : ∀ k, 2 + k = r.2 → (q.drop 2).take k = (p.drop 2).take k := by
    intro k hk
    rw [List.take_drop, List.take_drop, hk, htake]
  rw [readPayloadLen] at h ⊢
  split_ifs at h ⊢
  · cases h
    omega
  · cases h
    rw [readU16Be, hbytes 2 rfl]
    rfl
  · cases h
    omega
  · cases h
    rw [readU64Be, hbytes 8 rfl]
    rfl
  · exact h

/-- What a header that is there says about the bytes. -/
theorem readHeader_eq_some {p : List UInt8} {header : Header} (h : readHeader p = some header) :
    ∃ b0 b1 tail size, p = b0 :: b1 :: tail ∧
      readPayloadLen p b1 = some (header.payloadLen, size) ∧
      if b1 &&& 0x80 != 0 then
        size + 4 ≤ p.length ∧
          header = ⟨b0, b1, header.payloadLen, size + 4, fun i => (p.drop size).getD i 0⟩
      else header = ⟨b0, b1, header.payloadLen, size, fun _ => 0⟩ := by
  match p with
  | [] => cases h
  | [_] => cases h
  | b0 :: b1 :: tail =>
    rw [readHeader] at h
    cases hlen : readPayloadLen (b0 :: b1 :: tail) b1 with
    | none =>
      rw [hlen] at h
      cases h
    | some r =>
      rw [hlen] at h
      dsimp only at h
      refine ⟨b0, b1, tail, r.2, rfl, ?_⟩
      split_ifs at h ⊢ with hmask hlt <;> cases h
      · exact ⟨hlen, Nat.not_lt.mp hlt, rfl⟩
      · exact ⟨hlen, rfl⟩

theorem readHeader_size (h : readHeader p = some header) :
    2 ≤ header.headerSize ∧ header.headerSize ≤ 14 ∧ header.headerSize ≤ p.length := by
  obtain ⟨b0, b1, tail, size, rfl, hlen, hheader⟩ := readHeader_eq_some h
  obtain ⟨hle, hle', hlength⟩ := readPayloadLen_size hlen (by simp)
  dsimp only at hle hle' hlength
  split_ifs at hheader
  · rw [hheader.2]
    dsimp only
    omega
  · rw [hheader]
    dsimp only
    omega

/-- **A header is read from its own bytes.** -/
theorem readHeader_congr (h : readHeader p = some header)
    (htake : q.take header.headerSize = p.take header.headerSize) : readHeader q = some header := by
  have hsize := readHeader_size h
  obtain ⟨b0, b1, tail, size, rfl, hlen, hheader⟩ := readHeader_eq_some h
  have hle : size ≤ header.headerSize := by
    split_ifs at hheader
    · rw [hheader.2]
      exact Nat.le_add_right _ _
    · rw [hheader]
  have hlength : header.headerSize ≤ q.length := by
    have hlength := congrArg List.length htake
    rw [List.length_take, List.length_take] at hlength
    omega
  have htake' : ∀ k ≤ header.headerSize, q.take k = (b0 :: b1 :: tail).take k := by
    intro k hk
    rw [← Nat.min_eq_left hk, ← List.take_take, htake, List.take_take]
  have hlen' := readPayloadLen_congr hlen (by simp) (htake' size hle)
  obtain ⟨tail', rfl⟩ : ∃ tail', q = b0 :: b1 :: tail' := by
    have h2 := htake' 2 hsize.1
    match q with
    | [] => cases h2
    | [_] => cases h2
    | c0 :: c1 :: tail' =>
      cases h2
      exact ⟨tail', rfl⟩
  rw [readHeader, hlen']
  dsimp only
  split_ifs at hheader ⊢ with hmask hlt
  · rw [hheader.2] at hlength
    dsimp only at hlength
    omega
  · obtain ⟨-, hheader⟩ := hheader
    rw [hheader]
    congr 2
    funext i
    have hi : size + i < size + 4 := Nat.add_lt_add_left i.isLt size
    have hkey := htake' (size + 4) (by rw [hheader])
    rw [List.getD_eq_getElem?_getD, List.getD_eq_getElem?_getD, List.getElem?_drop,
      List.getElem?_drop, ← List.getElem?_take_of_lt hi, hkey, List.getElem?_take_of_lt hi]
  · rw [hheader]

/-- **A header that is there stays what it is** when more bytes come. -/
theorem readHeader_append (h : readHeader p = some header) (q : List UInt8) :
    readHeader (p ++ q) = some header :=
  readHeader_congr h (List.take_append_of_le_length (readHeader_size h).2.2)

/-- A header needs no byte behind it. -/
theorem readHeader_take (h : readHeader p = some header) (hle : header.headerSize ≤ n) :
    readHeader (p.take n) = some header :=
  readHeader_congr h (by rw [List.take_take, Nat.min_eq_left hle])

/-! ## Whole frames -/

/-- **A frame is parsed** when its header and its payload are there, and it fits a vector. -/
theorem parseFrame_eq_parsed :
    parseFrame p = .parsed frame n ↔ ∃ header, readHeader p = some header ∧
      n = header.headerSize + header.payloadLen ∧ n ≤ p.length ∧
      header.payloadLen ≤ maxVectorSize ∧ frame = header.frame (payloadOf header p) := by
  rw [parseFrame]
  cases hread : readHeader p with
  | none =>
    refine iff_of_false (by rintro ⟨⟩) ?_
    rintro ⟨header, ⟨⟩, -⟩
  | some header =>
    have hsize := readHeader_size hread
    dsimp only
    constructor
    · intro h
      split_ifs at h with hlt hmax
      cases h
      have hfit : header.headerSize + header.payloadLen < 2 ^ 64 := by
        rw [maxVectorSize] at hmax
        omega
      rw [Nat.mod_eq_of_lt hfit] at hlt ⊢
      exact ⟨header, rfl, rfl, Nat.not_lt.mp hlt, Nat.not_lt.mp hmax, rfl⟩
    · rintro ⟨header', hsome, rfl, hle, hmax, rfl⟩
      cases hsome
      have hfit : header.headerSize + header.payloadLen < 2 ^ 64 := by
        rw [maxVectorSize] at hmax
        omega
      rw [Nat.mod_eq_of_lt hfit, if_neg (Nat.not_lt.mpr hle), if_neg (Nat.not_lt.mpr hmax)]

/-- A frame whose header is readable and whose bytes are not all there. -/
theorem parseFrame_of_lt (h : readHeader p = some header)
    (hmax : header.payloadLen ≤ maxVectorSize)
    (hlt : p.length < header.headerSize + header.payloadLen) : parseFrame p = .needMore := by
  have hsize := readHeader_size h
  have hfit : header.headerSize + header.payloadLen < 2 ^ 64 := by
    rw [maxVectorSize] at hmax
    omega
  rw [parseFrame, h]
  dsimp only
  rw [Nat.mod_eq_of_lt hfit, if_pos hlt]

theorem parseFrame_of_none (h : readHeader p = none) : parseFrame p = .needMore := by
  rw [parseFrame, h]

/-- A part of the bytes has no header, or the same one. -/
theorem readHeader_part (hpre : p <+: q) :
    readHeader p = none ∨ readHeader p = readHeader q := by
  obtain ⟨tail, rfl⟩ := hpre
  cases h : readHeader p with
  | none => exact .inl rfl
  | some header => exact .inr (readHeader_append h tail).symm

/-! ## The reader -/

/-- One turn of `parse_frames` on the bytes from the offset on; the state says that it has
thrown. -/
def frameStep (thrown : Bool) (p : List UInt8) : Turn Bool UInt8 Frame :=
  match parseFrame p with
  | .needMore => .stop thrown p
  | .throws => .stop true p
  | .parsed frame totalSize => .next thrown [frame] (p.drop totalSize)

/-- **`parse_frames` as a reader.** -/
def frameReader : Reader Bool UInt8 Frame where
  step := frameStep
  size _ p := p.length
  decreases := by
    intro thrown p thrown' out rest h
    rw [frameStep] at h
    cases hparse : parseFrame p with
    | needMore =>
      rw [hparse] at h
      cases h
    | throws =>
      rw [hparse] at h
      cases h
    | parsed frame totalSize =>
      rw [hparse] at h
      cases h
      obtain ⟨header, hread, rfl, hle, -⟩ := parseFrame_eq_parsed.mp hparse
      have := readHeader_size hread
      rw [List.length_drop]
      omega

@[simp] theorem frameReader_step (thrown : Bool) (p : List UInt8) :
    frameReader.step thrown p = frameStep thrown p := rfl

/-- A whole frame is a token. -/
theorem takes_frame (h : parseFrame p = .parsed frame p.length) :
    frameReader.Takes false p [frame] false where
  ne_nil := by
    rintro rfl
    cases h
  whole rest := by
    obtain ⟨header, hread, hlength, hle, hmax, hframe⟩ := parseFrame_eq_parsed.mp h
    have hpayload : payloadOf header (p ++ rest) = payloadOf header p := by
      have hsize := readHeader_size hread
      rw [payloadOf, payloadOf, List.drop_append_of_le_length hsize.2.2,
        List.take_append_of_le_length (by rw [List.length_drop]; omega)]
    have hparse : parseFrame (p ++ rest) = .parsed frame p.length :=
      parseFrame_eq_parsed.mpr ⟨header, readHeader_append hread rest, hlength,
        by rw [List.length_append]; omega, hmax, hpayload ▸ hframe⟩
    rw [frameReader_step, frameStep, hparse]
    dsimp only
    rw [List.drop_left]
  part {q} hpre hne := by
    obtain ⟨header, hread, hlength, hle, hmax, -⟩ := parseFrame_eq_parsed.mp h
    have hlt : q.length < p.length := by
      refine lt_of_le_of_ne hpre.length_le fun heq => hne ?_
      exact hpre.eq_of_length heq
    have hparse : parseFrame q = .needMore := by
      rcases readHeader_part hpre with hnone | hsome
      · exact parseFrame_of_none hnone
      · exact parseFrame_of_lt (hsome.trans hread) hmax (by omega)
    rw [frameReader_step, frameStep, hparse]

/-- No token makes the parser throw. -/
theorem state_of_path {thrown last : Bool} {todo : List (List UInt8 × List Frame)}
    (h : frameReader.Path thrown todo last) : thrown = last := by
  induction h with
  | nil => rfl
  | @cons thrown thrown₁ last t out ts htakes _ ih =>
    have hstep := htakes.whole []
    rw [frameReader_step, frameStep] at hstep
    cases hparse : parseFrame (t ++ []) with
    | needMore =>
      rw [hparse] at hstep
      cases hstep
    | throws =>
      rw [hparse] at hstep
      cases hstep
    | parsed frame totalSize =>
      rw [hparse] at hstep
      injection hstep with hstate
      exact hstate.trans ih

theorem parseFrame_le (h : parseFrame p = .parsed frame n) : n ≤ p.length := by
  obtain ⟨header, -, -, hle, -⟩ := parseFrame_eq_parsed.mp h
  exact hle

end WebSocket

namespace WebSocketFrameParser

open WebSocket

/-! ## The parser with its buffer -/

/-- The loop of `parse_frames`; nothing is returned if it throws. -/
def readFrames : ℕ → WebSocketFrameParser → Option (List Frame) × WebSocketFrameParser
  | 0, parser => (some [], parser)
  | fuel + 1, parser =>
    match h : parseFrame parser.remaining with
    | .needMore => (some [], parser)
    | .throws => (none, parser)
    | .parsed frame totalSize =>
      let after := readFrames fuel (parser.advance totalSize (parseFrame_le h))
      (after.1.map (frame :: ·), after.2)

/-- `parse_frames`. -/
def parseFrames (parser : WebSocketFrameParser) : Option (List Frame) × WebSocketFrameParser :=
  match readFrames (parser.bufferedSize + 1) parser with
  | (none, parser') => (none, parser')
  | (some frames, parser') => (some frames, parser'.compact)

/-- `feed` and `parse_frames` for each piece, and the frames of all calls. -/
def feedPieces (parser : WebSocketFrameParser) :
    List (List UInt8) → Option (List Frame) × WebSocketFrameParser
  | [] => (some [], parser)
  | piece :: pieces =>
    match (parser.feed piece).parseFrames with
    | (none, parser') => (none, parser')
    | (some frames, parser') =>
      ((feedPieces parser' pieces).1.map (frames ++ ·), (feedPieces parser' pieces).2)

@[simp] theorem remaining_clear : clear.remaining = [] := rfl

theorem length_remaining (parser : WebSocketFrameParser) :
    parser.remaining.length = parser.bufferedSize := List.length_drop

@[simp] theorem remaining_feed (parser : WebSocketFrameParser) (data : List UInt8) :
    (parser.feed data).remaining = parser.remaining ++ data :=
  List.drop_append_of_le_length parser.offset_le

@[simp] theorem remaining_advance (parser : WebSocketFrameParser) (n : ℕ)
    (h : n ≤ parser.remaining.length) :
    (parser.advance n h).remaining = parser.remaining.drop n := by
  rw [remaining, remaining, List.drop_drop]
  rfl

/-- **No compaction moves what is left.** -/
@[simp] theorem remaining_compact (parser : WebSocketFrameParser) :
    parser.compact.remaining = parser.remaining := by
  rw [compact]
  split_ifs with hpos hall hlong
  · rw [remaining_clear, remaining, hall, List.drop_length]
  · rfl
  · rfl
  · rfl

/-- The loop of `parse_frames` is the reader, unless it throws. -/
theorem readFrames_eq {fuel : ℕ} {parser : WebSocketFrameParser}
    (h : parser.remaining.length < fuel)
    (hstate : (frameReader.drain false parser.remaining).state = false) :
    (parser.readFrames fuel).1 = some (frameReader.drain false parser.remaining).out ∧
      (parser.readFrames fuel).2.remaining = (frameReader.drain false parser.remaining).rest := by
  induction fuel generalizing parser with
  | zero => exact absurd h (Nat.not_lt_zero _)
  | succ fuel ih =>
    have hstep := frameReader_step false parser.remaining
    rw [frameStep] at hstep
    rw [readFrames]
    split
    · rename_i hparse
      rw [hparse] at hstep
      rw [Reader.drain_stop hstep]
      exact ⟨rfl, rfl⟩
    · rename_i hparse
      rw [hparse] at hstep
      rw [Reader.drain_stop hstep] at hstate
      cases hstate
    · rename_i frame totalSize hparse
      rw [hparse] at hstep
      have hlt := frameReader.decreases hstep
      rw [Reader.drain_next hstep] at hstate ⊢
      rw [← remaining_advance parser totalSize (parseFrame_le hparse)] at hlt hstate ⊢
      obtain ⟨hframes, hrest⟩ := ih (Nat.lt_of_lt_of_le hlt (Nat.le_of_lt_succ h)) hstate
      exact ⟨congrArg (Option.map (frame :: ·)) hframes, hrest⟩

/-- **`parse_frames` is the reader**, unless it throws. -/
theorem parseFrames_eq {parser : WebSocketFrameParser}
    (hstate : (frameReader.drain false parser.remaining).state = false) :
    parser.parseFrames.1 = some (frameReader.drain false parser.remaining).out ∧
      parser.parseFrames.2.remaining = (frameReader.drain false parser.remaining).rest := by
  have hfuel : parser.remaining.length < parser.bufferedSize + 1 := by
    rw [length_remaining]
    exact Nat.lt_succ_self _
  obtain ⟨hframes, hrest⟩ := readFrames_eq hfuel hstate
  rw [parseFrames]
  cases hread : parser.readFrames (parser.bufferedSize + 1) with
  | mk frames parser' =>
    rw [hread] at hframes hrest
    dsimp only at hframes hrest
    rw [hframes]
    dsimp only
    rw [remaining_compact]
    exact ⟨rfl, hrest⟩

/-- What has thrown has thrown. -/
theorem state_drain_true (p : List UInt8) : (frameReader.drain true p).state = true := by
  rw [Reader.drain]
  induction frameReader.size true p + 1 generalizing p with
  | zero => rfl
  | succ fuel ih =>
    rw [Reader.loop]
    rw [frameReader_step, frameStep]
    cases parseFrame p with
    | needMore => rfl
    | throws => rfl
    | parsed frame totalSize => exact ih _

theorem state_feedAll_true (rest : List UInt8) (pieces : List (List UInt8)) :
    (frameReader.feedAll true rest pieces).state = true := by
  induction pieces generalizing rest with
  | nil => rfl
  | cons piece pieces ih =>
    rw [Reader.feedAll, After.state_prepend, state_drain_true, ih]

/-- **`feed` and `parse_frames` for each piece** are the reader, unless a call throws. -/
theorem feedPieces_eq {parser : WebSocketFrameParser} {pieces : List (List UInt8)}
    (hstate : (frameReader.feedAll false parser.remaining pieces).state = false) :
    (parser.feedPieces pieces).1 = some (frameReader.feedAll false parser.remaining pieces).out ∧
      (parser.feedPieces pieces).2.remaining =
        (frameReader.feedAll false parser.remaining pieces).rest := by
  induction pieces generalizing parser with
  | nil => exact ⟨rfl, rfl⟩
  | cons piece pieces ih =>
    rw [Reader.feedAll, ← remaining_feed] at hstate ⊢
    have hthrown : (frameReader.drain false (parser.feed piece).remaining).state = false := by
      by_contra hne
      rw [Bool.not_eq_false] at hne
      rw [After.state_prepend, hne, state_feedAll_true] at hstate
      exact Bool.false_ne_true hstate.symm
    obtain ⟨hframes, hrest⟩ := parseFrames_eq hthrown
    rw [hthrown, ← hrest] at hstate ⊢
    obtain ⟨hframes', hrest'⟩ := ih hstate
    rw [feedPieces]
    cases hparse : (parser.feed piece).parseFrames with
    | mk frames parser' =>
      rw [hparse] at hframes hframes' hrest'
      dsimp only at hframes hframes' hrest'
      rw [hframes]
      dsimp only
      rw [hframes', After.out_prepend, After.rest_prepend]
      exact ⟨rfl, hrest'⟩

end WebSocketFrameParser

end TradingEngine
