import TradingEngine.WebSocket.Parser

/-!
# WebSocket/Split — how the bytes are cut does not matter

`Bounded` is about the headers the parser comes to in a stream: none of them announces a frame of
2^63 bytes or more.  Such a stream is a path of whole frames and a part of one more.
-/

namespace TradingEngine

open Incremental WebSocket

namespace WebSocketFrameParser

/-- The places in a stream where a frame starts. -/
inductive FrameStart (stream : List UInt8) : ℕ → Prop
  | zero : FrameStart stream 0
  | next {start : ℕ} {header : Header} (h : FrameStart stream start)
      (hread : readHeader (stream.drop start) = some header)
      (hle : start + (header.headerSize + header.payloadLen) ≤ stream.length) :
      FrameStart stream (start + (header.headerSize + header.payloadLen))

/-- Every frame of the stream is smaller than 2^63 bytes. -/
def Bounded (stream : List UInt8) : Prop :=
  ∀ start header, FrameStart stream start → readHeader (stream.drop start) = some header →
    header.headerSize + header.payloadLen < 2 ^ 63

/-- The frames behind the first one start in the whole stream, too. -/
theorem FrameStart.drop {stream : List UInt8} {header : Header}
    (hread : readHeader stream = some header)
    (hle : header.headerSize + header.payloadLen ≤ stream.length) {start : ℕ}
    (h : FrameStart (stream.drop (header.headerSize + header.payloadLen)) start) :
    FrameStart stream (header.headerSize + header.payloadLen + start) := by
  induction h with
  | zero =>
    have hnext := FrameStart.next .zero hread (by omega)
    rwa [Nat.zero_add] at hnext
  | @next start header' _ hread' hle' ih =>
    rw [List.drop_drop] at hread'
    rw [List.length_drop] at hle'
    rw [← Nat.add_assoc]
    exact .next ih hread' (by omega)

/-- **A stream is a path of whole frames** and a part of one more. -/
theorem Bounded.exists_path {stream : List UInt8} (h : Bounded stream) :
    ∃ ts tail, stream = Reader.bytes ts ++ tail ∧ frameReader.Path false ts false ∧
      frameReader.Waits false tail := by
  induction hn : stream.length using Nat.strong_induction_on generalizing stream with
  | _ n ih =>
    cases hread : readHeader stream with
    | none =>
      -- no part of the stream has a header
      refine ⟨[], stream, rfl, .nil false, fun {p} hpre => ?_⟩
      have hnone : readHeader p = none := (readHeader_part hpre).elim id fun h => h.trans hread
      rw [frameReader_step, frameStep, parseFrame_of_none hnone]
    | some header =>
      have hsize := readHeader_size hread
      have hbound := h 0 header .zero hread
      have hmax : header.payloadLen ≤ maxVectorSize := by
        rw [maxVectorSize]
        omega
      by_cases hlt : stream.length < header.headerSize + header.payloadLen
      · -- the first frame is not all there
        refine ⟨[], stream, rfl, .nil false, fun {p} hpre => ?_⟩
        have hwait : parseFrame p = .needMore := by
          rcases readHeader_part hpre with hnone | hsome
          · exact parseFrame_of_none hnone
          · exact parseFrame_of_lt (hsome.trans hread) hmax (lt_of_le_of_lt hpre.length_le hlt)
        rw [frameReader_step, frameStep, hwait]
      · -- the first frame is a token, the others are those of the rest
        rw [Nat.not_lt] at hlt
        have hlength : (stream.take (header.headerSize + header.payloadLen)).length =
            header.headerSize + header.payloadLen := List.length_take_of_le hlt
        have hread' : readHeader (stream.take (header.headerSize + header.payloadLen)) =
            some header := readHeader_take hread (Nat.le_add_right _ _)
        have hrest : Bounded (stream.drop (header.headerSize + header.payloadLen)) := by
          intro start header' hstart hheader
          rw [List.drop_drop] at hheader
          exact h _ header' (hstart.drop hread hlt) hheader
        obtain ⟨ts, tail, hbytes, hpath, hwaits⟩ :=
          ih _ (by rw [List.length_drop]; omega) hrest rfl
        have hparse := parseFrame_eq_parsed.mpr ⟨header, hread', rfl, hlength.ge, hmax, rfl⟩
        have hparse' : parseFrame (stream.take (header.headerSize + header.payloadLen)) =
            .parsed _ (stream.take (header.headerSize + header.payloadLen)).length :=
          hparse.trans (by rw [hlength])
        refine ⟨_, tail, ?_, .cons (takes_frame hparse') hpath, hwaits⟩
        rw [Reader.bytes_cons, List.append_assoc, ← hbytes, List.take_append_drop]

/-- **How the bytes are cut does not matter**: the same frames and the same remainder. -/
theorem feedPieces_split {stream : List UInt8} (h : Bounded stream) {pieces : List (List UInt8)}
    (hcut : pieces.flatten = stream) :
    ∃ frames, (clear.feedPieces pieces).1 = some frames ∧
      (clear.feed stream).parseFrames.1 = some frames ∧
      (clear.feedPieces pieces).2.remaining = (clear.feed stream).parseFrames.2.remaining := by
  obtain ⟨ts, tail, hbytes, hpath, hwaits⟩ := h.exists_path
  have hpieces : frameReader.feedAll false clear.remaining pieces = ⟨false, Reader.outs ts, tail⟩ :=
    Reader.feedAll_whole hpath hwaits (hcut.trans hbytes)
  have hwhole : frameReader.drain false (clear.feed stream).remaining =
      ⟨false, Reader.outs ts, tail⟩ := by
    rw [remaining_feed, hbytes]
    exact Reader.drain_whole hpath hwaits
  have hstate : (frameReader.feedAll false clear.remaining pieces).state = false := by rw [hpieces]
  have hstate' : (frameReader.drain false (clear.feed stream).remaining).state = false := by
    rw [hwhole]
  obtain ⟨hframes, hrest⟩ := feedPieces_eq hstate
  obtain ⟨hframes', hrest'⟩ := parseFrames_eq hstate'
  rw [hpieces] at hframes hrest
  rw [hwhole] at hframes' hrest'
  exact ⟨Reader.outs ts, hframes, hframes', hrest.trans hrest'.symm⟩

/-- A text frame, and two bytes of the next one. -/
def hiStream : List UInt8 := [0x81, 2, 104, 105, 0x81, 5]

theorem bounded_hiStream : Bounded hiStream := by
  have hstart : ∀ start, FrameStart hiStream start → start = 0 ∨ start = 4 := by
    intro start h
    induction h with
    | zero => exact .inl rfl
    | next _ hread hle ih =>
      rcases ih with rfl | rfl <;> cases hread
      · exact .inr rfl
      · exact absurd hle (by decide)
  intro start header h hread
  rcases hstart start h with rfl | rfl <;> cases hread <;> decide

theorem hiStream_split : ∃ frames,
    (clear.feedPieces [[0x81], [], [2, 104], [105, 0x81], [5]]).1 = some frames ∧
      (clear.feed hiStream).parseFrames.1 = some frames ∧
      (clear.feedPieces [[0x81], [], [2, 104], [105, 0x81], [5]]).2.remaining =
        (clear.feed hiStream).parseFrames.2.remaining :=
  feedPieces_split bounded_hiStream rfl

end WebSocketFrameParser

end TradingEngine
