import Mathlib.Data.List.Infix
import TradingEngine.Machinery.Ascii

/-!
# WebSocket/Frame — one frame, as it is built and as it is read

`buildFrame` is `WebSocketFrameBuilder::build_frame` with the masking key given; `parseFrame` is
`WebSocketFrameParser::try_parse_one_frame` on the bytes from the parse offset on.  A `char` is a
byte: the sign extension in the XOR of the payload is cut off again by the cast.
-/

namespace TradingEngine

/-- The largest size of a `std::vector<char>`. -/
def maxVectorSize : ℕ := 2 ^ 63 - 1

namespace WebSocket

/-! ## Numbers in network order -/

/-- The last `width` bytes of a number, the highest first. -/
def appendBe : ℕ → ℕ → List UInt8
  | 0, _ => []
  | width + 1, value => UInt8.ofNat (value >>> (8 * width)) :: appendBe width value

/-- `append_u16_be`. -/
def appendU16Be (value : ℕ) : List UInt8 := appendBe 2 value

/-- `append_u64_be`. -/
def appendU64Be (value : ℕ) : List UInt8 := appendBe 8 value

/-- The number some bytes stand for, the highest first. -/
def readBe (p : List UInt8) : ℕ := p.foldl (fun n c => n <<< 8 ||| c.toNat) 0

/-- `read_u16_be`. -/
def readU16Be (p : List UInt8) : ℕ := readBe (p.take 2)

/-- `read_u64_be`. -/
def readU64Be (p : List UInt8) : ℕ := readBe (p.take 8)

@[simp] theorem length_appendBe (width value : ℕ) : (appendBe width value).length = width := by
  induction width with
  | zero => rfl
  | succ width ih => rw [appendBe, List.length_cons, ih]

theorem foldl_appendBe (width value n : ℕ) :
    (appendBe width value).foldl (fun n c => n <<< 8 ||| c.toNat) n =
      n * 256 ^ width + value % 256 ^ width := by
  induction width generalizing n with
  | zero => simp [appendBe, Nat.mod_one]
  | succ width ih =>
    have hpow : 2 ^ (8 * width) = 256 ^ width := by
      rw [pow_mul]
      rfl
    have hbyte : (UInt8.ofNat (value >>> (8 * width))).toNat = value / 256 ^ width % 256 := by
      rw [UInt8.toNat_ofNat', Nat.shiftRight_eq_div_pow, hpow]
    have hor : n <<< 8 ||| value / 256 ^ width % 256 = n * 256 + value / 256 ^ width % 256 := by
      rw [← Nat.shiftLeft_add_eq_or_of_lt (Nat.mod_lt _ (by decide)), Nat.shiftLeft_eq]
    rw [appendBe, List.foldl_cons, hbyte, hor, ih, Nat.mod_pow_succ, pow_succ]
    ring

/-- **A number in range is read back.** -/
theorem readBe_appendBe {width value : ℕ} (h : value < 256 ^ width) :
    readBe (appendBe width value) = value := by
  rw [readBe, foldl_appendBe, Nat.zero_mul, Nat.zero_add, Nat.mod_eq_of_lt h]

/-! ## The builder -/

/-- `Opcode`, of the builder and of the parser. -/
inductive Opcode
  | continuation
  | text
  | binary
  | close
  | ping
  | pong
  deriving DecidableEq, Repr

/-- The value of an `Opcode`. -/
def Opcode.code : Opcode → UInt8
  | .continuation => 0x0
  | .text => 0x1
  | .binary => 0x2
  | .close => 0x8
  | .ping => 0x9
  | .pong => 0xA

/-- `is_control_opcode`. -/
def isControlOpcode (opcode : Opcode) : Bool := opcode.code ≥ 0x8

/-- `masking_key[4]`. -/
abbrev MaskingKey := Fin 4 → UInt8

/-- `append_payload_masked`, and the reading of a masked payload. -/
def maskPayload (key : MaskingKey) (payload : List UInt8) : List UInt8 :=
  payload.mapIdx fun i c => c ^^^ key (Fin.ofNat 4 i)

/-- `mask_bit`, and the bit of `fin`. -/
def highBit (flag : Bool) : UInt8 := if flag then 0x80 else 0x00

/-- `append_payload_length`. -/
def appendPayloadLength (payloadSize : ℕ) (mask : Bool) : List UInt8 :=
  if payloadSize ≤ 125 then [highBit mask ||| UInt8.ofNat payloadSize]
  else if payloadSize ≤ 65535 then (highBit mask ||| 126) :: appendU16Be payloadSize
  else (highBit mask ||| 127) :: appendU64Be payloadSize

/-- `append_masking_key`. -/
def appendMaskingKey (key : MaskingKey) : List UInt8 := [key 0, key 1, key 2, key 3]

/-- The arguments of `build_frame`, and the key it generates. -/
structure FrameArgs where
  opcode : Opcode
  payload : List UInt8
  fin : Bool
  mask : Bool
  key : MaskingKey

/-- The size `build_frame` reserves. -/
def FrameArgs.reserved (args : FrameArgs) : ℕ :=
  2 + (if args.payload.length ≤ 125 then 0 else if args.payload.length ≤ 65535 then 2 else 8) +
    (if args.mask then 4 else 0) + args.payload.length

/-- What `build_frame` appends. -/
def FrameArgs.out (args : FrameArgs) : List UInt8 :=
  (highBit args.fin ||| args.opcode.code) :: appendPayloadLength args.payload.length args.mask ++
    if args.mask then appendMaskingKey args.key ++ maskPayload args.key args.payload
    else args.payload

/-- `build_frame`. -/
def buildFrame (args : FrameArgs) : Except String (List UInt8) :=
  if isControlOpcode args.opcode ∧ args.fin = false then
    .error "Control frame must not be fragmented"
  else if isControlOpcode args.opcode ∧ 125 < args.payload.length then
    .error "Control frame payload must be <= 125"
  else if maxVectorSize < args.reserved then .error "vector::reserve"
  else .ok args.out

/-! ## The parser -/

/-- `Frame`.  The opcode is whatever stands in its four bits. -/
structure Frame where
  fin : Bool
  rsv1 : Bool
  rsv2 : Bool
  rsv3 : Bool
  masked : Bool
  opcode : UInt8
  payload : List UInt8
  deriving DecidableEq, Repr

/-- What `try_parse_one_frame` reads in front of the payload. -/
structure Header where
  b0 : UInt8
  b1 : UInt8
  payloadLen : ℕ
  headerSize : ℕ
  maskingKey : MaskingKey

namespace Header

def masked (header : Header) : Bool := header.b1 &&& 0x80 != 0

/-- The frame of a header with its payload. -/
def frame (header : Header) (payload : List UInt8) : Frame where
  fin := header.b0 &&& 0x80 != 0
  rsv1 := header.b0 &&& 0x40 != 0
  rsv2 := header.b0 &&& 0x20 != 0
  rsv3 := header.b0 &&& 0x10 != 0
  masked := header.masked
  opcode := header.b0 &&& 0x0F
  payload := payload

end Header

/-- The payload length, and the size of the header up to it. -/
def readPayloadLen (p : List UInt8) (b1 : UInt8) : Option (ℕ × ℕ) :=
  let payloadLen := b1 &&& 0x7F
  if payloadLen = 126 then
    if p.length < 2 + 2 then none else some (readU16Be (p.drop 2), 2 + 2)
  else if payloadLen = 127 then
    if p.length < 2 + 8 then none else some (readU64Be (p.drop 2), 2 + 8)
  else some (payloadLen.toNat, 2)

/-- The header, if all of it is there. -/
def readHeader (p : List UInt8) : Option Header :=
  match p with
  | b0 :: b1 :: _ =>
    match readPayloadLen p b1 with
    | none => none
    | some (payloadLen, headerSize) =>
      if b1 &&& 0x80 != 0 then
        if p.length < headerSize + 4 then none
        else
          some ⟨b0, b1, payloadLen, headerSize + 4, fun i => (p.drop headerSize).getD i 0⟩
      else some ⟨b0, b1, payloadLen, headerSize, fun _ => 0⟩
  | _ => none

/-- The payload behind a header. -/
def payloadOf (header : Header) (p : List UInt8) : List UInt8 :=
  let raw := (p.drop header.headerSize).take header.payloadLen
  if header.masked then maskPayload header.maskingKey raw else raw

/-- What `try_parse_one_frame` comes to. -/
inductive Outcome
  | needMore
  | throws
  | parsed (frame : Frame) (totalSize : ℕ)

/-- `try_parse_one_frame`, on the bytes from the parse offset on.  The sum of the sizes wraps, and
`resize` throws above the largest size. -/
def parseFrame (p : List UInt8) : Outcome :=
  match readHeader p with
  | none => .needMore
  | some header =>
    let totalSize := (header.headerSize + header.payloadLen) % 2 ^ 64
    if p.length < totalSize then .needMore
    else if maxVectorSize < header.payloadLen then .throws
    else .parsed (header.frame (payloadOf header p)) totalSize

end WebSocket

end TradingEngine
