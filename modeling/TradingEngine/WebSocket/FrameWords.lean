import Mathlib.Data.Fin.VecNotation
import TradingEngine.WebSocket.Parser

/-!
# WebSocket/FrameWords — the sizes of a frame as 64-bit words

`tryParseOneFrame` computes with `std::size_t` as the code does, and reads the buffer one byte at a
time, each read checked.  On a vector it is `parseFrame` (`tryParseOneFrame_eq`), and its sum of
sizes is right unless the peer announces a payload near the end of the words (`Parser.exact_iff`).
-/

namespace TradingEngine

open WebSocket

/-- What can leave `try_parse_one_frame` instead of a result. -/
inductive ParseFault
  | payloadTooLarge
  | lengthError
  | outOfBounds
  deriving DecidableEq

namespace FrameWords

/-! ## The words -/

/-- `p[pos]`. -/
def readAt (p : List UInt8) (pos : UInt64) : Except ParseFault UInt8 :=
  if h : pos.toNat < p.length then .ok p[pos.toNat] else .error .outOfBounds

/-- `read_u16_be`. -/
def readU16Be (p : List UInt8) (pos : UInt64) : Except ParseFault UInt16 := do
  let c0 ← readAt p pos
  let c1 ← readAt p (pos + 1)
  return c0.toUInt16 <<< 8 ||| c1.toUInt16

/-- `read_u64_be`. -/
def readU64Be (p : List UInt8) (pos : UInt64) : Except ParseFault UInt64 := do
  let c0 ← readAt p pos
  let c1 ← readAt p (pos + 1)
  let c2 ← readAt p (pos + 2)
  let c3 ← readAt p (pos + 3)
  let c4 ← readAt p (pos + 4)
  let c5 ← readAt p (pos + 5)
  let c6 ← readAt p (pos + 6)
  let c7 ← readAt p (pos + 7)
  return c0.toUInt64 <<< 56 ||| c1.toUInt64 <<< 48 ||| c2.toUInt64 <<< 40 ||| c3.toUInt64 <<< 32 |||
    c4.toUInt64 <<< 24 ||| c5.toUInt64 <<< 16 ||| c6.toUInt64 <<< 8 ||| c7.toUInt64

/-- `payload_len`, and `header_size` behind it. -/
def readLength (available : UInt64) (p : List UInt8) (b1 : UInt8) :
    Except ParseFault (Option (UInt64 × UInt64)) :=
  let payloadLen := (b1 &&& 0x7F).toUInt64
  if payloadLen = 126 then
    if available < 2 + 2 then .ok none
    else (readU16Be p 2).map fun n => some (n.toUInt64, 2 + 2)
  else if payloadLen = 127 then
    if available < 2 + 8 then .ok none
    else (readU64Be p 2).map fun n => some (n, 2 + 8)
  else .ok (some (payloadLen, 2))

/-- `masking_key`, and `header_size` behind it. -/
def readKey (available : UInt64) (p : List UInt8) (headerSize : UInt64) (masked : Bool) :
    Except ParseFault (Option (MaskingKey × UInt64)) := do
  if masked then
    if available < headerSize + 4 then return none
    else
      let k0 ← readAt p headerSize
      let k1 ← readAt p (headerSize + 1)
      let k2 ← readAt p (headerSize + 2)
      let k3 ← readAt p (headerSize + 3)
      return some (![k0, k1, k2, k3], headerSize + 4)
  else return some (fun _ => 0, headerSize)

/-- A masking key is not empty. -/
theorem neZero_four : NeZero 4 := ⟨by decide⟩

/-- The bytes of `frame.payload`. -/
def readPayload (p : List UInt8) (headerSize payloadLen : UInt64) (masked : Bool)
    (key : MaskingKey) : Except ParseFault (List UInt8) :=
  (List.range payloadLen.toNat).mapM fun i =>
    (readAt p (headerSize + UInt64.ofNat i)).map fun c =>
      if masked then c ^^^ key (@Fin.ofNat 4 neZero_four i) else c

/-- The frame behind its header, with `total_size`. -/
def readRest (available : UInt64) (p : List UInt8) (b0 b1 : UInt8) (payloadLen headerSize : UInt64)
    (maskingKey : MaskingKey) : Except ParseFault (Option (Frame × UInt64)) :=
  let masked := b1 &&& 0x80 != 0
  let totalSize := headerSize + payloadLen
  if payloadLen.toNat > UInt64.size - 1 then .error .payloadTooLarge
  else if available < totalSize then .ok none
  -- `resize`
  else if payloadLen.toNat > maxVectorSize then .error .lengthError
  else (readPayload p headerSize payloadLen masked maskingKey).map fun payload => some
    ({ fin := b0 &&& 0x80 != 0
       rsv1 := b0 &&& 0x40 != 0
       rsv2 := b0 &&& 0x20 != 0
       rsv3 := b0 &&& 0x10 != 0
       masked := masked
       opcode := b0 &&& 0x0F
       payload := payload }, totalSize)

/-- A frame and `total_size`, or `nullopt`. -/
def readFrame (available : UInt64) (p : List UInt8) :
    Except ParseFault (Option (Frame × UInt64)) :=
  if available < 2 then .ok none
  else do
    let b0 ← readAt p 0
    let b1 ← readAt p 1
    match ← readLength available p b1 with
    | none => return none
    | some (payloadLen, lengthEnd) =>
      match ← readKey available p lengthEnd (b1 &&& 0x80 != 0) with
      | none => return none
      | some (maskingKey, headerSize) =>
        readRest available p b0 b1 payloadLen headerSize maskingKey

/-- `m_buffer` and `m_parse_offset`. -/
structure Parser where
  buffer : List UInt8
  parseOffset : UInt64

namespace Parser

/-- `available`. -/
def available (parser : Parser) : UInt64 := UInt64.ofNat parser.buffer.length - parser.parseOffset

/-- The bytes from `m_buffer.data() + m_parse_offset` on. -/
def remaining (parser : Parser) : List UInt8 := parser.buffer.drop parser.parseOffset.toNat

/-- `try_parse_one_frame`. -/
def tryParseOneFrame (parser : Parser) : Except ParseFault (Option Frame) × Parser :=
  match readFrame parser.available parser.remaining with
  | .error fault => (.error fault, parser)
  | .ok none => (.ok none, parser)
  | .ok (some (frame, totalSize)) =>
    (.ok (some frame), { parser with parseOffset := parser.parseOffset + totalSize })

/-- A vector, and an offset that is not behind its end. -/
structure Fits (parser : Parser) : Prop where
  size_le : parser.buffer.length ≤ maxVectorSize
  offset_le : parser.parseOffset.toNat ≤ parser.buffer.length

end Parser

/-! ## Bytes of a number -/

/-- A byte that is shifted within a word. -/
theorem toNat_shiftLeft_byte (c : UInt8) {k : ℕ} (hk : k ≤ 56) :
    (c.toUInt64 <<< UInt64.ofNat k).toNat = c.toNat <<< k := by
  have hbound : c.toNat <<< k < 2 ^ 64 := by
    rw [Nat.shiftLeft_eq]
    calc c.toNat * 2 ^ k
        < 2 ^ 8 * 2 ^ k := Nat.mul_lt_mul_of_pos_right c.toNat_lt (Nat.two_pow_pos k)
      _ = 2 ^ (8 + k) := (Nat.pow_add 2 8 k).symm
      _ ≤ 2 ^ 64 := Nat.pow_le_pow_right (by decide) (by omega)
  have hk' : k % 2 ^ 64 % 64 = k := by omega
  rw [UInt64.toNat_shiftLeft, UInt64.toNat_ofNat', hk', UInt8.toNat_toUInt64,
    Nat.mod_eq_of_lt hbound]

/-- **The word of eight bytes** is their number. -/
theorem toNat_be (c0 c1 c2 c3 c4 c5 c6 c7 : UInt8) :
    (c0.toUInt64 <<< 56 ||| c1.toUInt64 <<< 48 ||| c2.toUInt64 <<< 40 ||| c3.toUInt64 <<< 32 |||
      c4.toUInt64 <<< 24 ||| c5.toUInt64 <<< 16 ||| c6.toUInt64 <<< 8 ||| c7.toUInt64).toNat =
      readBe [c0, c1, c2, c3, c4, c5, c6, c7] := by
  have h (c : UInt8) := @toNat_shiftLeft_byte c
  have h56 := h c0 (k := 56) (by decide)
  have h48 := h c1 (k := 48) (by decide)
  have h40 := h c2 (k := 40) (by decide)
  have h32 := h c3 (k := 32) (by decide)
  have h24 := h c4 (k := 24) (by decide)
  have h16 := h c5 (k := 16) (by decide)
  have h8 := h c6 (k := 8) (by decide)
  simp only [UInt64.toNat_or, UInt8.toNat_toUInt64, readBe, List.foldl, Nat.shiftLeft_or_distrib,
    ← Nat.shiftLeft_add, Nat.zero_shiftLeft, Nat.zero_or, Nat.reduceAdd]
  rw [← h56, ← h48, ← h40, ← h32, ← h24, ← h16, ← h8]
  rfl

/-- Bytes that are read one after another. -/
theorem take_drop_eq_map {p : List UInt8} {n k : ℕ} (h : n + k ≤ p.length) :
    (p.drop n).take k = (List.range k).map fun i => p.getD (n + i) 0 := by
  refine List.ext_getElem ?_ fun i hi hi' => ?_
  · rw [List.length_take, List.length_drop, List.length_map, List.length_range]
    omega
  · rw [List.getElem_take, List.getElem_drop, List.getElem_map, List.getElem_range,
      List.getD_eq_getElem?_getD, List.getElem?_eq_getElem, Option.getD_some]

/-! ## Reads -/

variable {p : List UInt8} {pos : UInt64} {i : ℕ}

/-- A read within the bytes, with the position computed in words. -/
theorem readAt_add (h : pos.toNat + i < p.length) (hp : p.length < 2 ^ 64) :
    readAt p (pos + UInt64.ofNat i) = .ok (p.getD (pos.toNat + i) 0) := by
  have hpos : (pos + UInt64.ofNat i).toNat = pos.toNat + i := by
    rw [UInt64.toNat_add, UInt64.toNat_ofNat', Nat.add_mod_mod, Nat.mod_eq_of_lt (by omega)]
  rw [readAt, dif_pos (hpos ▸ h), List.getD_eq_getElem?_getD, List.getElem?_eq_getElem h]
  simp only [hpos, Option.getD_some]

theorem readAt_zero (h : pos.toNat < p.length) : readAt p pos = .ok (p.getD pos.toNat 0) := by
  rw [readAt, dif_pos h, List.getD_eq_getElem?_getD, List.getElem?_eq_getElem h, Option.getD_some]

theorem readU16Be_eq (h : pos.toNat + 2 ≤ p.length) (hp : p.length < 2 ^ 64) :
    ∃ n, readU16Be p pos = .ok n ∧ n.toNat = WebSocket.readU16Be (p.drop pos.toNat) := by
  have h1 : readAt p (pos + 1) = _ := readAt_add (i := 1) (by omega) hp
  refine ⟨_, by rw [readU16Be, readAt_zero (by omega), h1]; rfl, ?_⟩
  have hbyte : ∀ c : UInt8, c.toNat <<< 8 % 2 ^ 16 = c.toNat <<< 8 := fun c => by
    have := c.toNat_lt
    rw [Nat.shiftLeft_eq]
    omega
  rw [WebSocket.readU16Be, take_drop_eq_map h, UInt16.toNat_or, UInt16.toNat_shiftLeft]
  simp only [UInt8.toNat_toUInt16, List.range, List.range.loop, List.map, readBe, List.foldl,
    Nat.add_zero, Nat.zero_shiftLeft, Nat.zero_or]
  exact congrArg (· ||| _) (hbyte _)

theorem readU64Be_eq (h : pos.toNat + 8 ≤ p.length) (hp : p.length < 2 ^ 64) :
    ∃ n, readU64Be p pos = .ok n ∧ n.toNat = WebSocket.readU64Be (p.drop pos.toNat) := by
  have hread : ∀ i < 8, readAt p (pos + UInt64.ofNat i) = .ok (p.getD (pos.toNat + i) 0) :=
    fun i hi => readAt_add (by omega) hp
  have h0 := @readAt_zero p pos (by omega)
  have h1 : readAt p (pos + 1) = _ := hread 1 (by decide)
  have h2 : readAt p (pos + 2) = _ := hread 2 (by decide)
  have h3 : readAt p (pos + 3) = _ := hread 3 (by decide)
  have h4 : readAt p (pos + 4) = _ := hread 4 (by decide)
  have h5 : readAt p (pos + 5) = _ := hread 5 (by decide)
  have h6 : readAt p (pos + 6) = _ := hread 6 (by decide)
  have h7 : readAt p (pos + 7) = _ := hread 7 (by decide)
  refine ⟨_, by rw [readU64Be, h0, h1, h2, h3, h4, h5, h6, h7]; rfl, ?_⟩
  rw [toNat_be, WebSocket.readU64Be, take_drop_eq_map h]
  rfl

/-! ## The parts of a frame -/

variable {available headerSize payloadLen : UInt64} {b1 : UInt8} {masked : Bool} {key : MaskingKey}

theorem lt_of_toNat_eq {k : ℕ} (h : available.toNat = p.length) (hk : k < 2 ^ 64) :
    available < UInt64.ofNat k ↔ p.length < k := by
  rw [UInt64.lt_iff_toNat_lt, h, UInt64.toNat_ofNat', Nat.mod_eq_of_lt hk]

/-- The payload length is the one that is read in natural numbers. -/
theorem readLength_eq (havail : available.toNat = p.length) :
    ∃ r, readLength available p b1 = .ok r ∧
      (r.map fun w => (w.1.toNat, w.2.toNat)) = readPayloadLen p b1 := by
  have hp : p.length < 2 ^ 64 := havail ▸ available.toNat_lt
  have hlen : ∀ k : UInt8, (b1 &&& 0x7F).toUInt64 = k.toUInt64 ↔ b1 &&& 0x7F = k := fun k =>
    ⟨fun h => UInt8.toNat_inj.mp (by simpa using congrArg UInt64.toNat h), fun h => congrArg _ h⟩
  have h4 : available < 2 + 2 ↔ p.length < 2 + 2 := lt_of_toNat_eq havail (by decide)
  have h10 : available < 2 + 8 ↔ p.length < 2 + 8 := lt_of_toNat_eq havail (by decide)
  rw [readLength, readPayloadLen]
  rw [show (126 : UInt64) = (126 : UInt8).toUInt64 from rfl,
    show (127 : UInt64) = (127 : UInt8).toUInt64 from rfl]
  simp only [hlen, h4, h10]
  split_ifs with h126 hshort h127 hshort
  · exact ⟨none, rfl, rfl⟩
  · obtain ⟨n, hn, hval⟩ := @readU16Be_eq p 2 (Nat.not_lt.mp hshort) hp
    refine ⟨_, by rw [hn]; rfl, ?_⟩
    rw [Option.map_some, UInt16.toNat_toUInt64, hval]
    rfl
  · exact ⟨none, rfl, rfl⟩
  · obtain ⟨n, hn, hval⟩ := @readU64Be_eq p 2 (Nat.not_lt.mp hshort) hp
    refine ⟨_, by rw [hn]; rfl, ?_⟩
    rw [Option.map_some, hval]
    rfl
  · refine ⟨_, rfl, ?_⟩
    rw [Option.map_some, UInt8.toNat_toUInt64]
    rfl

/-- The masking key is the one of the bytes behind the length. -/
theorem readKey_eq (havail : available.toNat = p.length) (hsize : headerSize.toNat ≤ 10) :
    ∃ r, readKey available p headerSize masked = .ok r ∧ (r.map fun w => (w.1, w.2.toNat)) =
      if masked then
        if p.length < headerSize.toNat + 4 then none
        else some (fun i : Fin 4 => (p.drop headerSize.toNat).getD i 0, headerSize.toNat + 4)
      else some (fun _ => 0, headerSize.toNat) := by
  have hp : p.length < 2 ^ 64 := havail ▸ available.toNat_lt
  have hadd : (headerSize + 4).toNat = headerSize.toNat + 4 := by
    have hfit : headerSize.toNat + 4 < 2 ^ 64 := by omega
    exact (UInt64.toNat_add _ _).trans (Nat.mod_eq_of_lt hfit)
  have hlt : available < headerSize + 4 ↔ p.length < headerSize.toNat + 4 := by
    rw [UInt64.lt_iff_toNat_lt, havail, hadd]
  rw [readKey]
  cases masked with
  | false => exact ⟨_, rfl, rfl⟩
  | true =>
    by_cases hshort : p.length < headerSize.toNat + 4
    · rw [if_pos rfl, if_pos (hlt.mpr hshort), if_pos rfl, if_pos hshort]
      exact ⟨none, rfl, rfl⟩
    · have h0 := @readAt_zero p headerSize (by omega)
      have h1 : readAt p (headerSize + 1) = _ := readAt_add (i := 1) (by omega) hp
      have h2 : readAt p (headerSize + 2) = _ := readAt_add (i := 2) (by omega) hp
      have h3 : readAt p (headerSize + 3) = _ := readAt_add (i := 3) (by omega) hp
      rw [if_pos rfl, if_neg (mt hlt.mp hshort), if_pos rfl, if_neg hshort, h0, h1, h2, h3]
      refine ⟨_, rfl, ?_⟩
      rw [Option.map_some, hadd]
      refine congrArg some (Prod.ext (funext fun i => ?_) rfl)
      have hget : (p.drop headerSize.toNat).getD i 0 = p.getD (headerSize.toNat + i) 0 := by
        rw [List.getD_eq_getElem?_getD, List.getElem?_drop, List.getD_eq_getElem?_getD]
      refine Eq.trans ?_ hget.symm
      match i with
      | 0 => rfl
      | 1 => rfl
      | 2 => rfl
      | 3 => rfl

/-- Calls that all return. -/
theorem mapM_ok {α β ε : Type} {f : α → Except ε β} {g : α → β} {l : List α}
    (h : ∀ a ∈ l, f a = .ok (g a)) : l.mapM f = .ok (l.map g) := by
  induction l with
  | nil => rfl
  | cons a l ih =>
    rw [List.mapM_cons, h a List.mem_cons_self, ih fun b hb => h b (List.mem_cons_of_mem a hb)]
    rfl

/-- **The payload is read from the bytes behind the header.** -/
theorem readPayload_eq (h : headerSize.toNat + payloadLen.toNat ≤ p.length)
    (hp : p.length < 2 ^ 64) :
    readPayload p headerSize payloadLen masked key =
      .ok (if masked then maskPayload key ((p.drop headerSize.toNat).take payloadLen.toNat)
        else (p.drop headerSize.toNat).take payloadLen.toNat) := by
  have hread : ∀ i ∈ List.range payloadLen.toNat,
      ((readAt p (headerSize + UInt64.ofNat i)).map fun c =>
        if masked then c ^^^ key (Fin.ofNat 4 i) else c) =
      .ok (if masked then p.getD (headerSize.toNat + i) 0 ^^^ key (Fin.ofNat 4 i)
        else p.getD (headerSize.toNat + i) 0) := by
    intro i hi
    rw [readAt_add (by have := List.mem_range.mp hi; omega) hp]
    rfl
  rw [readPayload, mapM_ok hread, take_drop_eq_map h]
  cases masked with
  | false => rfl
  | true =>
    refine congrArg Except.ok (List.ext_getElem ?_ fun i hi hi' => ?_)
    · rw [if_pos rfl, maskPayload, List.length_mapIdx, List.length_map, List.length_map]
    · simp only [if_pos, maskPayload, List.getElem_map, List.getElem_mapIdx, List.getElem_range]

/-! ## The frame -/

/-- What `try_parse_one_frame` comes to, in words. -/
def ofOutcome : Outcome → Except ParseFault (Option (Frame × UInt64))
  | .needMore => .ok none
  | .throws => .error .lengthError
  | .parsed frame totalSize => .ok (some (frame, UInt64.ofNat totalSize))

theorem toNat_add_le (headerSize payloadLen : UInt64) (hsize : headerSize.toNat ≤ 14)
    (hmax : payloadLen.toNat ≤ maxVectorSize) :
    (headerSize.toNat + payloadLen.toNat) % 2 ^ 64 = headerSize.toNat + payloadLen.toNat := by
  rw [maxVectorSize] at hmax
  exact Nat.mod_eq_of_lt (by omega)

theorem readRest_eq {b0 : UInt8} (havail : available.toNat = p.length)
    (hsize : headerSize.toNat ≤ 14) :
    readRest available p b0 b1 payloadLen headerSize key =
      let header : Header := ⟨b0, b1, payloadLen.toNat, headerSize.toNat, key⟩
      let totalSize := (header.headerSize + header.payloadLen) % 2 ^ 64
      ofOutcome
        (if p.length < totalSize then .needMore
        else if maxVectorSize < header.payloadLen then .throws
        else .parsed (header.frame (payloadOf header p)) totalSize) := by
  have hp : p.length < 2 ^ 64 := havail ▸ available.toNat_lt
  have hword : ¬ payloadLen.toNat > UInt64.size - 1 :=
    Nat.not_lt.mpr (Nat.le_sub_one_of_lt payloadLen.toNat_lt)
  have htotal : headerSize + payloadLen =
      UInt64.ofNat ((headerSize.toNat + payloadLen.toNat) % 2 ^ 64) := by
    rw [← UInt64.toNat_add, UInt64.ofNat_toNat]
  have hlt : available < headerSize + payloadLen ↔
      p.length < (headerSize.toNat + payloadLen.toNat) % 2 ^ 64 := by
    rw [UInt64.lt_iff_toNat_lt, havail, UInt64.toNat_add]
  rw [readRest]
  dsimp only
  rw [if_neg hword]
  by_cases hshort : p.length < (headerSize.toNat + payloadLen.toNat) % 2 ^ 64
  · rw [if_pos (hlt.mpr hshort), if_pos hshort]
    rfl
  · rw [if_neg (mt hlt.mp hshort), if_neg hshort]
    by_cases hmax : maxVectorSize < payloadLen.toNat
    · rw [if_pos hmax, if_pos hmax]
      rfl
    · have hfit := toNat_add_le headerSize payloadLen hsize (Nat.not_lt.mp hmax)
      rw [if_neg hmax, if_neg hmax, readPayload_eq (hfit ▸ Nat.not_lt.mp hshort) hp, htotal]
      rfl

/-- **The computation in words is the one in natural numbers**, modulo 2 ^ 64. -/
theorem readFrame_eq (havail : available.toNat = p.length) :
    readFrame available p = ofOutcome (parseFrame p) := by
  have h2 : available < 2 ↔ p.length < 2 := lt_of_toNat_eq havail (by decide)
  rw [readFrame, parseFrame]
  rcases p with - | ⟨b0, - | ⟨b1, tail⟩⟩
  · rw [if_pos (h2.mpr (by decide))]
    rfl
  · rw [if_pos (h2.mpr Nat.one_lt_two)]
    rfl
  · have hlong : ¬ available < 2 := fun h => absurd (h2.mp h) (by simp)
    have hb0 : readAt (b0 :: b1 :: tail) 0 = .ok b0 := @readAt_zero _ 0 (by simp)
    have hb1 : readAt (b0 :: b1 :: tail) 1 = .ok b1 := @readAt_zero _ 1 (by simp)
    obtain ⟨r, hr, hlength⟩ := @readLength_eq (b0 :: b1 :: tail) available b1 havail
    rw [if_neg hlong, hb0, hb1]
    change (do
      match ← readLength available (b0 :: b1 :: tail) b1 with
      | none => return none
      | some (payloadLen, lengthEnd) =>
        match ← readKey available (b0 :: b1 :: tail) lengthEnd (b1 &&& 0x80 != 0) with
        | none => return none
        | some (maskingKey, headerSize) =>
          readRest available (b0 :: b1 :: tail) b0 b1 payloadLen headerSize maskingKey) = _
    rw [hr, readHeader, ← hlength]
    cases r with
    | none => rfl
    | some w =>
      obtain ⟨payloadLen, size⟩ := w
      obtain ⟨-, hsize, -⟩ := readPayloadLen_size hlength.symm (by simp)
      obtain ⟨r', hr', hkey⟩ := @readKey_eq (b0 :: b1 :: tail) available size
        (b1 &&& 0x80 != 0) havail hsize
      change (do
        match ← readKey available (b0 :: b1 :: tail) size (b1 &&& 0x80 != 0) with
        | none => return none
        | some (maskingKey, headerSize) =>
          readRest available (b0 :: b1 :: tail) b0 b1 payloadLen headerSize maskingKey) = _
      rw [hr']
      have hsmall : size.toNat ≤ 10 := hsize
      cases r' with
      | none =>
        have hshort : (b1 &&& 0x80 != 0) = true ∧
            (b0 :: b1 :: tail).length < size.toNat + 4 := by
          rw [Option.map_none] at hkey
          split_ifs at hkey with hmask hshort
          exact ⟨hmask, hshort⟩
        rw [Option.map_some]
        dsimp only
        rw [if_pos hshort.1, if_pos hshort.2]
        rfl
      | some w' =>
        obtain ⟨key, headerSize⟩ := w'
        have hheader : headerSize.toNat ≤ 14 ∧ (if (b1 &&& 0x80 != 0) = true then
            if (b0 :: b1 :: tail).length < size.toNat + 4 then none
            else some (⟨b0, b1, payloadLen.toNat, size.toNat + 4,
              fun i => ((b0 :: b1 :: tail).drop size.toNat).getD i 0⟩ : Header)
          else some ⟨b0, b1, payloadLen.toNat, size.toNat, fun _ => 0⟩) =
            some ⟨b0, b1, payloadLen.toNat, headerSize.toNat, key⟩ := by
          rw [Option.map_some] at hkey
          split_ifs at hkey ⊢ with hmask hshort
          · obtain ⟨rfl, hend⟩ := Prod.mk.inj (Option.some.inj hkey)
            replace hend : headerSize.toNat = size.toNat + 4 := hend
            exact ⟨by omega, by rw [hend]⟩
          · obtain ⟨rfl, hend⟩ := Prod.mk.inj (Option.some.inj hkey)
            replace hend : headerSize.toNat = size.toNat := hend
            exact ⟨by omega, by rw [hend]⟩
        rw [Option.map_some]
        dsimp only
        rw [hheader.2]
        exact readRest_eq havail hheader.1

/-! ## One call -/

namespace Parser

variable {parser : Parser}

theorem toNat_available (h : parser.Fits) :
    parser.available.toNat = parser.remaining.length := by
  have hsize : parser.buffer.length < 2 ^ 64 :=
    h.size_le.trans_lt (by decide)
  have hlength : (UInt64.ofNat parser.buffer.length).toNat = parser.buffer.length := by
    rw [UInt64.toNat_ofNat', Nat.mod_eq_of_lt hsize]
  have hle : parser.parseOffset ≤ UInt64.ofNat parser.buffer.length := by
    rw [UInt64.le_iff_toNat_le, hlength]
    exact h.offset_le
  rw [available, remaining, UInt64.toNat_sub_of_le _ _ hle, hlength, List.length_drop]

/-- **On a vector the call is `parseFrame`** of the bytes that are there: no read is outside. -/
theorem tryParseOneFrame_eq (h : parser.Fits) :
    parser.tryParseOneFrame =
      match parseFrame parser.remaining with
      | .needMore => (.ok none, parser)
      | .throws => (.error .lengthError, parser)
      | .parsed frame totalSize => (.ok (some frame),
          { parser with parseOffset := parser.parseOffset + UInt64.ofNat totalSize }) := by
  rw [tryParseOneFrame, readFrame_eq (toNat_available h)]
  cases parseFrame parser.remaining <;> rfl

/-- The announced length is a word. -/
theorem payloadLen_lt {header : Header} (h : parser.Fits)
    (hread : readHeader parser.remaining = some header) : header.payloadLen < 2 ^ 64 := by
  obtain ⟨b0, b1, tail, size, -, hlength, -⟩ := readHeader_eq_some hread
  obtain ⟨r, -, hr⟩ := @readLength_eq _ parser.available b1 (toNat_available h)
  rw [← hr] at hlength
  obtain ⟨w, -, hw⟩ := Option.map_eq_some_iff.mp hlength
  rw [← (Prod.mk.inj hw).1]
  exact w.1.toNat_lt

theorem remaining_length_le (h : parser.Fits) : parser.remaining.length ≤ maxVectorSize := by
  rw [remaining, List.length_drop]
  exact (Nat.sub_le _ _).trans h.size_le

/-- `header_size + payload_len` in natural numbers, if the header is there. -/
def frameSize (p : List UInt8) : Option ℕ :=
  (readHeader p).map fun header => header.headerSize + header.payloadLen

/-- The bytes that are there are fewer than the frame announces. -/
def Exceeds (parser : Parser) : Prop :=
  ∀ n ∈ frameSize parser.remaining, parser.remaining.length < n

/-- **A call that is exact**: it reads what is there, waits for what is not, and consumes a frame. -/
structure Exact (parser : Parser) : Prop where
  inside : parser.tryParseOneFrame.1 ≠ .error .outOfBounds
  waits : parser.Exceeds → (parser.tryParseOneFrame.1 = .ok none ∨
    parser.tryParseOneFrame.1 = .error .payloadTooLarge) ∧ parser.tryParseOneFrame.2 = parser
  consumes : ¬ parser.Exceeds → ∃ n ∈ frameSize parser.remaining, ∃ frame,
    parser.tryParseOneFrame.1 = .ok (some frame) ∧
      parser.tryParseOneFrame.2.buffer = parser.buffer ∧
      parser.tryParseOneFrame.2.parseOffset.toNat = parser.parseOffset.toNat + n

theorem exact_of_waits (hexceeds : parser.Exceeds)
    (hcall : parser.tryParseOneFrame = (.ok none, parser)) : parser.Exact where
  inside := by
    rw [hcall]
    exact nofun
  waits _ := by
    rw [hcall]
    exact ⟨.inl rfl, rfl⟩
  consumes hnot := absurd hexceeds hnot

/-- The offset behind a frame does not wrap. -/
theorem toNat_advance {frame : Frame} {n : ℕ} (h : parser.Fits)
    (hparse : parseFrame parser.remaining = .parsed frame n) :
    (parser.parseOffset + UInt64.ofNat n).toNat = parser.parseOffset.toNat + n ∧
      parser.parseOffset.toNat + n ≤ parser.buffer.length := by
  obtain ⟨-, -, -, hle, -⟩ := parseFrame_eq_parsed.mp hparse
  have hbuffer := h.size_le
  have hmax : maxVectorSize = 2 ^ 63 - 1 := rfl
  have hoff := h.offset_le
  rw [remaining, List.length_drop] at hle
  refine ⟨?_, by omega⟩
  rw [UInt64.toNat_add, UInt64.toNat_ofNat', Nat.add_mod_mod, Nat.mod_eq_of_lt (by omega)]

/-- **Every call leaves such a parser.** -/
theorem Fits.next (h : parser.Fits) : parser.tryParseOneFrame.2.Fits := by
  rw [tryParseOneFrame_eq h]
  cases hparse : parseFrame parser.remaining with
  | needMore => exact h
  | throws => exact h
  | parsed frame n =>
    obtain ⟨hoffset, hle⟩ := toNat_advance h hparse
    exact ⟨h.size_le, hoffset ▸ hle⟩

theorem exact_of_parsed {frame : Frame} {n : ℕ} (h : parser.Fits)
    (hparse : parseFrame parser.remaining = .parsed frame n)
    (hn : n ∈ frameSize parser.remaining) : parser.Exact := by
  have hcall := tryParseOneFrame_eq h
  rw [hparse] at hcall
  obtain ⟨-, -, -, hle, -⟩ := parseFrame_eq_parsed.mp hparse
  have hoffset := (toNat_advance h hparse).1
  refine ⟨?_, fun hexceeds => absurd (hexceeds n hn) (Nat.not_lt.mpr hle), fun _ => ?_⟩
  · rw [hcall]
    exact nofun
  · rw [hcall]
    exact ⟨n, hn, frame, rfl, rfl, hoffset⟩

/-- **A call is exact** if and only if the size the peer announces fits a word. -/
theorem exact_iff (h : parser.Fits) :
    parser.Exact ↔ ∀ n ∈ frameSize parser.remaining, n < 2 ^ 64 := by
  have hlength := remaining_length_le h
  have hmax : maxVectorSize = 2 ^ 63 - 1 := rfl
  cases hread : readHeader parser.remaining with
  | none =>
    have hsize : frameSize parser.remaining = none := by rw [frameSize, hread, Option.map_none]
    have hcall : parser.tryParseOneFrame = (.ok none, parser) := by
      rw [tryParseOneFrame_eq h, parseFrame_of_none hread]
    refine iff_of_true (exact_of_waits ?_ hcall) ?_ <;>
      exact fun n hn => absurd (hsize ▸ hn) (Option.not_mem_none n)
  | some header =>
    obtain ⟨-, hsmall, hthere⟩ := readHeader_size hread
    have hword := payloadLen_lt h hread
    have hsize : frameSize parser.remaining = some (header.headerSize + header.payloadLen) := by
      rw [frameSize, hread, Option.map_some]
    have hexceeds : parser.Exceeds ↔
        parser.remaining.length < header.headerSize + header.payloadLen := by
      rw [Exceeds, hsize]
      exact ⟨fun hall => hall _ rfl, fun hlt n hn => Option.some.inj hn ▸ hlt⟩
    by_cases hfit : header.headerSize + header.payloadLen < 2 ^ 64
    · refine iff_of_true ?_ fun n hn => ?_
      · by_cases hshort : parser.remaining.length < header.headerSize + header.payloadLen
        · have hparse : parseFrame parser.remaining = .needMore := by
            rw [parseFrame, hread]
            dsimp only
            rw [Nat.mod_eq_of_lt hfit, if_pos hshort]
          refine exact_of_waits (hexceeds.mpr hshort) ?_
          rw [tryParseOneFrame_eq h, hparse]
        · have hparse := parseFrame_eq_parsed.mpr ⟨header, hread, rfl, Nat.not_lt.mp hshort,
            by omega, rfl⟩
          exact exact_of_parsed h hparse hsize
      · rw [hsize] at hn
        exact Option.some.inj hn ▸ hfit
    · -- the sum wraps to less than the header, and the vector cannot be that large
      have hparse : parseFrame parser.remaining = .throws := by
        rw [parseFrame, hread]
        dsimp only
        rw [if_neg (by omega), if_pos (by omega)]
      refine iff_of_false (fun hexact => ?_) fun hall => hfit (hall _ hsize)
      have hwaits := (hexact.waits (hexceeds.mpr (by omega))).1
      rw [tryParseOneFrame_eq h, hparse] at hwaits
      rcases hwaits with hwaits | hwaits <;> cases hwaits

/-- A masked frame that announces 2 ^ 64 - 1 bytes. -/
def wrapping : Parser := ⟨[0x82, 0xFF, 255, 255, 255, 255, 255, 255, 255, 255, 1, 2, 3, 4], 0⟩

theorem exact_iff_wrapping : wrapping.Exact ↔ ∀ n ∈ frameSize wrapping.remaining, n < 2 ^ 64 :=
  exact_iff ⟨by decide, by decide⟩

/-- The call throws though the bytes are not there. -/
theorem wrapping_throws : wrapping.Fits ∧ wrapping.Exceeds ∧
    wrapping.tryParseOneFrame.1 = .error .lengthError ∧ ¬ wrapping.Exact := by
  have hfits : wrapping.Fits := ⟨by decide, by decide⟩
  have hsize : frameSize wrapping.remaining = some (14 + (2 ^ 64 - 1)) := by rfl
  have hparse : parseFrame wrapping.remaining = .throws := by rfl
  have hexceeds : wrapping.Exceeds := by
    rw [Exceeds, hsize]
    intro n hn
    rw [← Option.some.inj hn]
    decide
  have hcall : wrapping.tryParseOneFrame.1 = .error .lengthError := by
    rw [tryParseOneFrame_eq hfits, hparse]
  refine ⟨hfits, hexceeds, hcall, fun hexact => ?_⟩
  have hwaits := (hexact.waits hexceeds).1
  rw [hcall] at hwaits
  exact hwaits.elim nofun nofun

end Parser

end FrameWords

end TradingEngine
