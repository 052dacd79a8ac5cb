import Mathlib.Tactic.FinCases
import TradingEngine.WebSocket.Parser

/-!
# WebSocket/RoundTrip — what is built is parsed

The header of a built frame is read back field by field, and masking a payload twice gives it back.
A built frame is then a token of the parser, and a list of them a path.
-/

namespace TradingEngine

open Incremental

namespace WebSocket

variable {args : FrameArgs} {built : List UInt8}

/-- The frame that is built from some arguments. -/
def FrameArgs.frame (args : FrameArgs) : Frame where
  fin := args.fin
  rsv1 := false
  rsv2 := false
  rsv3 := false
  masked := args.mask
  opcode := args.opcode.code
  payload := args.payload

/-! ## The header -/

/-- The mask bit and a length below 128 are read back from their byte. -/
theorem highBit_or : ∀ mask : Bool, ∀ k < 128,
    (highBit mask ||| UInt8.ofNat k) &&& 0x7F = UInt8.ofNat k ∧
      ((highBit mask ||| UInt8.ofNat k) &&& 0x80 != 0) = mask := by
  decide

/-- The bits of the first byte. -/
theorem firstByte_bits (fin : Bool) (opcode : Opcode) :
    let b0 := highBit fin ||| opcode.code
    (b0 &&& 0x80 != 0) = fin ∧ (b0 &&& 0x40 != 0) = false ∧ (b0 &&& 0x20 != 0) = false ∧
      (b0 &&& 0x10 != 0) = false ∧ b0 &&& 0x0F = opcode.code := by
  cases fin <;> cases opcode <;> decide

/-- **The payload length is read back** from any of its three encodings. -/
theorem readPayloadLen_append {n : ℕ} (hn : n < 2 ^ 64) (mask : Bool) :
    ∃ b1 ext, appendPayloadLength n mask = b1 :: ext ∧ (b1 &&& 0x80 != 0) = mask ∧
      ∀ b0 rest, readPayloadLen (b0 :: b1 :: ext ++ rest) b1 = some (n, 2 + ext.length) := by
  rw [appendPayloadLength]
  split_ifs with h125 h65535
  · obtain ⟨hlen, hmask⟩ := highBit_or mask n (by omega)
    refine ⟨_, [], rfl, hmask, fun b0 rest => ?_⟩
    have hne : ∀ k, 125 < k → k < 128 → UInt8.ofNat n ≠ UInt8.ofNat k := by
      intro k hk hk' heq
      have hnat := congrArg UInt8.toNat heq
      rw [UInt8.toNat_ofNat', UInt8.toNat_ofNat'] at hnat
      omega
    have h126 : UInt8.ofNat n ≠ 126 := hne 126 (by decide) (by decide)
    have h127 : UInt8.ofNat n ≠ 127 := hne 127 (by decide) (by decide)
    rw [readPayloadLen, hlen, if_neg h126, if_neg h127, UInt8.toNat_ofNat',
      Nat.mod_eq_of_lt (by omega)]
    rfl
  · have hlen : (highBit mask ||| 126) &&& 0x7F = 126 := (highBit_or mask 126 (by decide)).1
    have hmask : ((highBit mask ||| 126) &&& 0x80 != 0) = mask :=
      (highBit_or mask 126 (by decide)).2
    refine ⟨_, _, rfl, hmask, fun b0 rest => ?_⟩
    have hlength : (appendU16Be n).length = 2 := length_appendBe 2 n
    have hread : readU16Be (appendU16Be n ++ rest) = n := by
      rw [readU16Be, List.take_left' hlength]
      exact readBe_appendBe (by omega)
    rw [readPayloadLen, if_pos hlen, if_neg (by simp [hlength]), hlength]
    exact congrArg (fun k => some (k, 4)) hread
  · have hlen : (highBit mask ||| 127) &&& 0x7F = 127 := (highBit_or mask 127 (by decide)).1
    have hmask : ((highBit mask ||| 127) &&& 0x80 != 0) = mask :=
      (highBit_or mask 127 (by decide)).2
    refine ⟨_, _, rfl, hmask, fun b0 rest => ?_⟩
    have hlength : (appendU64Be n).length = 8 := length_appendBe 8 n
    have hread : readU64Be (appendU64Be n ++ rest) = n := by
      rw [readU64Be, List.take_left' hlength]
      exact readBe_appendBe (by omega)
    have hne : (highBit mask ||| 127) &&& 0x7F ≠ 126 := by
      rw [hlen]
      decide
    rw [readPayloadLen, if_neg hne, if_pos hlen, if_neg (by simp [hlength]), hlength]
    exact congrArg (fun k => some (k, 10)) hread

/-! ## The payload -/

/-- **Masking twice** gives the payload back. -/
theorem maskPayload_maskPayload (key : MaskingKey) (payload : List UInt8) :
    maskPayload key (maskPayload key payload) = payload := by
  ext1 i
  rw [maskPayload, maskPayload, List.getElem?_mapIdx, List.getElem?_mapIdx, Option.map_map]
  have hxor : (fun c => c ^^^ key (Fin.ofNat 4 i)) ∘ (fun c => c ^^^ key (Fin.ofNat 4 i)) = id := by
    funext c
    rw [Function.comp, UInt8.xor_assoc, UInt8.xor_self, UInt8.xor_zero]
    rfl
  rw [hxor, Option.map_id]
  rfl

@[simp] theorem length_maskPayload (key : MaskingKey) (payload : List UInt8) :
    (maskPayload key payload).length = payload.length := List.length_mapIdx

/-- The key is read back. -/
theorem getD_appendMaskingKey (key : MaskingKey) (rest : List UInt8) :
    (fun i : Fin 4 => (appendMaskingKey key ++ rest).getD i 0) = key := by
  funext i
  fin_cases i <;> rfl

/-! ## The frame -/

/-- A frame that is built fits a vector. -/
theorem buildFrame_ok (h : buildFrame args = .ok built) :
    built = args.out ∧ args.payload.length ≤ maxVectorSize := by
  rw [buildFrame] at h
  split_ifs at h with hfin hsize hmax
  cases h
  refine ⟨rfl, ?_⟩
  rw [FrameArgs.reserved] at hmax
  omega

/-- The header of the bytes that are built, and what stands behind it. -/
theorem readHeader_out (h : args.payload.length < 2 ^ 64) :
    ∃ header, readHeader args.out = some header ∧ header.payloadLen = args.payload.length ∧
      header.headerSize + args.payload.length = args.out.length ∧
      payloadOf header args.out = args.payload ∧
      ∀ payload, header.frame payload = { args.frame with payload := payload } := by
  obtain ⟨b1, ext, hbytes, hmask, hread⟩ := readPayloadLen_append h args.mask
  obtain ⟨hfin, h1, h2, h3, hopcode⟩ := firstByte_bits args.fin args.opcode
  rw [FrameArgs.out, hbytes]
  dsimp only
  generalize highBit args.fin ||| args.opcode.code = b0 at *
  have hframe : ∀ size key payload,
      (⟨b0, b1, args.payload.length, size, key⟩ : Header).frame payload =
      { args.frame with payload := payload } := by
    intro size key payload
    simp only [Header.frame, Header.masked, FrameArgs.frame, hfin, h1, h2, h3, hopcode, hmask]
  have hlength : (b0 :: b1 :: ext).length = 2 + ext.length := by
    rw [List.length_cons, List.length_cons]
    omega
  cases hargs : args.mask with
  | true =>
    rw [hargs] at hmask
    have hkey := getD_appendMaskingKey args.key (maskPayload args.key args.payload)
    refine ⟨⟨b0, b1, args.payload.length, 2 + ext.length + 4, args.key⟩, ?_, rfl, ?_, ?_,
      hframe _ _⟩
    · rw [if_pos rfl, List.cons_append, List.cons_append, readHeader, ← List.cons_append,
        ← List.cons_append, hread]
      dsimp only
      rw [if_pos hmask, if_neg, List.drop_left' hlength, hkey]
      simp only [List.length_append, hlength, appendMaskingKey, List.length_cons]
      omega
    · simp only [if_true, List.length_append, hlength, appendMaskingKey, List.length_cons,
        List.length_nil, length_maskPayload]
      omega
    · have hdrop : ((b0 :: b1 :: ext) ++ (appendMaskingKey args.key ++
          maskPayload args.key args.payload)).drop (2 + ext.length + 4) =
          maskPayload args.key args.payload := by
        rw [← List.append_assoc, List.drop_left']
        rw [List.length_append, hlength]
        rfl
      rw [if_pos rfl, payloadOf, Header.masked, hmask, if_pos rfl, hdrop]
      dsimp only
      rw [List.take_of_length_le (length_maskPayload _ _).le, maskPayload_maskPayload]
  | false =>
    rw [hargs] at hmask
    refine ⟨⟨b0, b1, args.payload.length, 2 + ext.length, fun _ => 0⟩, ?_, rfl, ?_, ?_, hframe _ _⟩
    · rw [if_neg Bool.false_ne_true, List.cons_append, List.cons_append, readHeader,
        ← List.cons_append, ← List.cons_append, hread]
      dsimp only
      rw [if_neg (by rw [hmask]; exact Bool.false_ne_true)]
    · rw [if_neg Bool.false_ne_true, List.length_append, hlength]
    · rw [if_neg Bool.false_ne_true, payloadOf, Header.masked, hmask, if_neg Bool.false_ne_true,
        List.drop_left' hlength]
      exact List.take_length

/-- **A built frame is parsed**, and its bytes are used up. -/
theorem parseFrame_built (h : buildFrame args = .ok built) :
    parseFrame built = .parsed args.frame built.length := by
  obtain ⟨rfl, hmax⟩ := buildFrame_ok h
  obtain ⟨header, hread, hlen, hlength, hpayload, hframe⟩ :=
    readHeader_out (lt_of_le_of_lt hmax (by decide))
  refine parseFrame_eq_parsed.mpr ⟨header, hread, ?_, le_rfl, hlen ▸ hmax, ?_⟩
  · rw [hlen, hlength]
  · rw [hpayload, hframe]
    rfl

/-- Built frames are a path of the parser. -/
theorem exists_path_built {argss : List FrameArgs} {builts : List (List UInt8)}
    (h : List.Forall₂ (fun args built => buildFrame args = .ok built) argss builts) :
    ∃ ts, frameReader.Path false ts false ∧ Reader.bytes ts = builts.flatten ∧
      Reader.outs ts = argss.map FrameArgs.frame := by
  induction h with
  | nil => exact ⟨[], .nil false, rfl, rfl⟩
  | @cons args built argss builts hbuild _ ih =>
    obtain ⟨ts, hpath, hbytes, houts⟩ := ih
    refine ⟨(built, [args.frame]) :: ts, .cons (takes_frame (parseFrame_built hbuild)) hpath,
      ?_, ?_⟩
    · rw [Reader.bytes_cons, hbytes, List.flatten_cons]
    · rw [Reader.outs_cons, houts]
      rfl

/-- At the end of a frame the parser waits. -/
theorem waits_nil : frameReader.Waits false [] := by
  intro p hpre
  rw [List.prefix_nil.mp hpre]
  rfl

end WebSocket

open WebSocket

/-- **What is built is parsed**: the same frames, and nothing is left. -/
theorem WebSocketFrameParser.parseFrames_built {argss : List FrameArgs} {builts : List (List UInt8)}
    (h : List.Forall₂ (fun args built => buildFrame args = .ok built) argss builts) :
    (clear.feed builts.flatten).parseFrames.1 = some (argss.map FrameArgs.frame) ∧
      (clear.feed builts.flatten).parseFrames.2.bufferedSize = 0 := by
  obtain ⟨ts, hpath, hbytes, houts⟩ := exists_path_built h
  have hwhole : frameReader.drain false (clear.feed builts.flatten).remaining =
      ⟨false, argss.map FrameArgs.frame, []⟩ := by
    rw [remaining_feed, ← hbytes, ← houts, ← Reader.drain_whole hpath waits_nil, List.append_nil]
    rfl
  have hstate : (frameReader.drain false (clear.feed builts.flatten).remaining).state = false := by
    rw [hwhole]
  obtain ⟨hframes, hrest⟩ := parseFrames_eq hstate
  rw [hwhole] at hframes hrest
  refine ⟨hframes, ?_⟩
  rw [← length_remaining, hrest]
  rfl

/-- A masked fragment, a ping in between, and the last fragment, which is not masked. -/
def fragmentArgs : List FrameArgs :=
  [⟨.text, [104, 105], false, true, fun i => UInt8.ofNat (7 * i + 250)⟩,
    ⟨.ping, [], true, true, fun _ => 1⟩,
    ⟨.continuation, [33, 33], true, false, fun _ => 0⟩]

theorem WebSocketFrameParser.fragmentArgs_parsed :
    (clear.feed (fragmentArgs.map FrameArgs.out).flatten).parseFrames.1 =
        some (fragmentArgs.map FrameArgs.frame) ∧
      (clear.feed (fragmentArgs.map FrameArgs.out).flatten).parseFrames.2.bufferedSize = 0 :=
  parseFrames_built (.cons rfl (.cons rfl (.cons rfl .nil)))

end TradingEngine
